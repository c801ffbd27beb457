import PrecompiledHeaders.Proofs.Building
import PrecompiledHeaders.Proofs.Collecting
import PrecompiledHeaders.Proofs.Merger.Grouping
import PrecompiledHeaders.Proofs.Pipeline.Batch
import PrecompiledHeaders.Proofs.Split
/-! Handing in parts. Their tasks are collected, merged and queued; with known files nothing of this
fails, and an idle pipeline takes up a batch of all merged tasks. -/
namespace PrecompiledHeaders

variable {W : Type} [Workshop W]

namespace Provider

/-- The records that collecting these parts may write. -/
def records (p : Provider) (files : FileTable) (parts : List Part) : List FilePath :=
  parts.flatMap fun part => match part.recordKey files with
    | .ok key => p.store.documents key
    | .error _ => []

theorem records_congr {p q : Provider} {t u : FileTable} {parts : List Part}
    (hs : q.store.root? = p.store.root?) (hu : u.Extends t)
    (hk : ∀ part ∈ parts, part.Known t) : q.records u parts = p.records t parts := by
  rw [records, records, List.flatMap_eq_foldl, List.flatMap_eq_foldl]
  refine List.foldl_ext _ _ _ fun found part hpart => ?_
  rw [Part.recordKey_extends (hk part hpart) hu]
  cases part.recordKey t with
  | error f => rfl
  | ok key => exact congrArg (found ++ ·) (RecordStore.documents_congr hs key)

theorem ends_of_mem_records {p : Provider} {files : FileTable} {parts : List Part} {d : FilePath}
    (hk : ∀ part ∈ parts, part.Known files) (hd : d ∈ p.records files parts) :
    ∃ bytes, d.Ends (digest bytes ++ ".json") := by
  obtain ⟨part, hpart, hd⟩ := List.mem_flatMap.mp hd
  obtain ⟨headers, sources, _, _, hkey⟩ := Part.recordKey_eq_ok (hk part hpart)
  rw [hkey] at hd
  obtain ⟨root, _, rfl⟩ := List.mem_map.mp hd
  exact ⟨_, ends_pathFor root (slash_not_mem_digest _)⟩

/-- Records are kept in other places than the store. -/
theorem records_beside {p : Provider} {files : FileTable} {parts : List Part}
    (hk : ∀ part ∈ parts, part.Known files) (store : ArtifactStore) :
    ∀ y ∈ p.records files parts, ∀ d ∈ store.documents, ¬ y.same d := by
  intro y hy d hd
  obtain ⟨bytes, hends⟩ := ends_of_mem_records hk hy
  exact FilePath.not_same_of_ends hends (ArtifactStore.ends_of_mem_documents hd)
    (digest_json_ne_artifacts bytes)

end Provider

namespace Pipeline

variable [LawfulWorkshop W]

/-- Each part with the tasks of some dependency of its own. -/
def Collected (files : FileTable) (parts : List Part) (sets : List TaskSet) : Prop :=
  List.Forall₂ (fun part set => ∃ d : Dependency, d.Known files ∧ set = part.tasks d) parts sets

theorem collectTasks_spec {p : Provider} {ws : Workspace W} {parts : List Part}
    (hk : ∀ part ∈ parts, part.Known ws.files) (hs : p.Sane ws.files) :
    ∃ sets p' ws', collectTasks p ws parts = (.ok sets, p', ws') ∧
      Collected ws'.files parts sets ∧ Provider.Forward (p.records ws.files parts) p ws p' ws' := by
  induction parts generalizing p ws with
  | nil => exact ⟨[], p, ws, rfl, List.Forall₂.nil, FileTable.Extends.refl _, Spares.refl _ _, rfl,
      rfl, id⟩
  | cons part parts ih =>
    obtain ⟨hpart, hrest⟩ := List.forall_mem_cons.mp hk
    obtain ⟨key, hkey⟩ : ∃ key, part.recordKey ws.files = .ok key := by
      obtain ⟨_, _, _, _, hkey⟩ := Part.recordKey_eq_ok hpart
      exact ⟨_, hkey⟩
    obtain ⟨d, p₁, ws₁, hcreate, hd, hforward⟩ := p.create_spec ws hpart hs hkey
    have hrest₁ : ∀ part ∈ parts, part.Known ws₁.files := fun q hq =>
      (hrest q hq).extends hforward.files
    obtain ⟨sets, p₂, ws₂, hcollect, hsets, hforward₂⟩ := ih hrest₁ (hforward.sane hs)
    refine ⟨part.tasks d :: sets, p₂, ws₂, ?_, ?_, ?_⟩
    · rw [collectTasks, hcreate]
      dsimp only
      rw [hcollect]
    · exact List.Forall₂.cons ⟨d, hd.extends hforward₂.files, rfl⟩ hsets
    · rw [Provider.records_congr hforward.root hforward.files hrest] at hforward₂
      refine (hforward.trans hforward₂).mono ?_
      have hhead : p.records ws.files (part :: parts) =
          p.store.documents key ++ p.records ws.files parts := by
        rw [Provider.records, List.flatMap_cons, hkey]
        rfl
      rw [hhead]
      exact List.Subset.refl _

/-- `q` is `p` after these parts were handed in, which came to these tasks. -/
structure Submitted (p : Pipeline W) (parts : List Part) (extra : List String)
    (sets : List TaskSet) (q : Pipeline W) : Prop where
  collect : collectTasks p.provider p.workspace parts = (.ok sets, q.provider, q.workspace)
  collected : Collected q.workspace.files parts sets
  forward : Provider.Forward (p.provider.records p.workspace.files parts) p.provider p.workspace
    q.provider q.workspace
  shape : q = { p with
    provider := q.provider
    workspace := q.workspace
    merger := (p.merger.merge sets extra).1
    queue := p.queue.applyAll (p.merger.merge sets extra).2
    parts := q.parts
    extra := extra
    watch := q.watch
    troubles := q.troubles }

theorem submitted {p : Pipeline W} {parts : List Part} (extra : List String)
    (hk : ∀ part ∈ parts, part.Known p.workspace.files) (hs : p.provider.Sane p.workspace.files) :
    ∃ sets, Submitted p parts extra sets (p.handle (.addParts parts extra)) := by
  obtain ⟨sets, p', ws', hcollect, hsets, hforward⟩ := collectTasks_spec hk hs
  let q : Pipeline W := { p with
    parts := parts.foldl (fun m (part : Part) => m.insert part.id part) p.parts
    extra := extra
    provider := p'
    workspace := ws'
    merger := (p.merger.merge sets extra).1
    queue := p.queue.applyAll (p.merger.merge sets extra).2 }
  have hhandle : p.handle (.addParts parts extra) = q.refreshWatch := by
    simp only [handle, submit, hcollect]
    rfl
  obtain ⟨watch, troubles, hshape⟩ := q.refreshWatch_eq
  rw [hhandle, hshape]
  exact ⟨sets, hcollect, hsets, hforward, rfl⟩

end Pipeline

/-! ### The tasks of a batch -/

namespace Pipeline.Collected

open Pipeline (Collected)

variable {files : FileTable} {parts : List Part} {sets : List TaskSet}

theorem members (h : Collected files parts sets) (scope : Scope) :
    sets.map (fun set => (set.get scope).members) = parts.map fun part => [part.id] := by
  induction h with
  | nil => rfl
  | cons hset _ ih =>
    obtain ⟨d, _, rfl⟩ := hset
    rw [List.map_cons, List.map_cons, ih, (Part.tasks_within _ d scope).1]

theorem known (h : Collected files parts sets) (scope : Scope) :
    ∀ set ∈ sets, (set.get scope).Known files := by
  induction h with
  | nil => exact fun _ hset => absurd hset List.not_mem_nil
  | cons hset _ ih =>
    obtain ⟨d, hd, rfl⟩ := hset
    refine List.forall_mem_cons.mpr ⟨?_, ih⟩
    refine FileTable.Knows.mono hd fun f hf => ?_
    exact List.mem_append_left _ ((Part.tasks_within _ d scope).2 hf)

theorem flatMap_members (h : Collected files parts sets) (extra : List String) (scope : Scope) :
    ((MergerCall.merge sets extra).submitted scope).flatMap Task.members = parts.map (·.id) := by
  have hone : ((MergerCall.merge sets extra).submitted scope).map Task.members =
      parts.map fun part => [part.id] := by
    rw [← h.members scope, MergerCall.submitted, List.map_map]
    rfl
  rw [List.flatMap_def, hone, ← List.flatMap_def, ← List.map_eq_flatMap]

end Pipeline.Collected

theorem Queue.unreported_applyAll (q : Queue) (ds : List Dispatch) :
    (q.applyAll ds).unreported = q.unreported := by
  have hupdate : ∀ (tasks : List Task) (q : Queue) (scope : Scope),
      (q.update scope tasks).unreported = q.unreported := by
    intro tasks
    induction tasks with
    | nil => exact fun _ _ => rfl
    | cons t tasks ih => exact fun q scope => ih (updateTask scope q t) scope
  have hone : ∀ (q : Queue) (d : Dispatch), (q.apply d).unreported = q.unreported := by
    intro q d
    cases d with
    | add scope tasks =>
      rw [apply, add, addTotal]
      dsimp only
      split <;> rfl
    | update scope tasks => exact hupdate tasks q scope
    | remove scope keys =>
      rw [apply, remove, removeTotal]
      dsimp only
      split <;> rfl
  induction ds generalizing q with
  | nil => rfl
  | cons d ds ih => exact (ih (q.apply d)).trans (hone q d)

/-- No two merged tasks have one key. -/
theorem Merger.distinct_after {calls : List MergerCall} (h : Admissible calls) :
    (Merger.after calls).Distinct := by
  have hsound := Merger.sound_after calls h.wellFormed
  refine ⟨fun s => (hsound s).keys.of_map, fun s s' t t' ht ht' hk => ?_⟩
  obtain ⟨rfl, hm⟩ := h.key_inj (Merger.names_of_after h.wellFormed ht)
    (Merger.names_of_after h.wellFormed ht') hk
  exact ⟨rfl, Merger.eq_of_mergeKey (hsound s).keys ht ht' hm⟩

/-- When an idle queue is told of a call, what the call hands in is pending, and nothing else. -/
theorem Queue.pending_of_idle {q : Queue} {calls : List MergerCall} {c : MergerCall}
    (ha : Admissible (calls ++ [c])) (hq : q.isIdle = true) (s : Scope) :
    let q' := q.applyAll ((Merger.after calls).call c).2
    (∀ e ∈ q'.pending.get s, e.task ∈ (Merger.after (calls ++ [c])).get s ∧
      e.key = e.task.key s) ∧
    ((q'.pending.get s).map (·.key)).Nodup ∧
    ∀ t ∈ (Merger.after (calls ++ [c])).get s, (∃ u ∈ c.submitted s, u.mergeKey = t.mergeKey) →
      t.key s ∈ (q'.pending.get s).map (·.key) := by
  intro q'
  have hempty : q.pending.get s = [] := by
    simp only [isIdle, Bool.and_eq_true, List.isEmpty_iff] at hq
    cases s
    · exact hq.1.1.1
    · exact hq.1.1.2
  have hpending : q'.pending.get s =
      ((Merger.after calls).call c).2.foldl (takePending s) [] := by
    rw [← hempty]
    exact pending_applyAll q _ s
  have hagrees : Agrees (q'.pending.get s) (Merger.replayed s (calls ++ [c])) := by
    rw [hpending, Merger.replayed_append]
    have hnone : Agrees [] (Merger.replayed s calls) :=
      ⟨List.nodup_nil, fun _ he => absurd he List.not_mem_nil⟩
    exact hnone.foldl_take _
  refine ⟨fun e he => ?_, hagrees.nodup, fun t ht hu => ?_⟩
  · obtain ⟨hmem, hkey⟩ := (Merger.mirrors_replayed ha s e.key e.task).mp (hagrees.held e he)
    exact ⟨hmem, hkey.symm⟩
  · obtain ⟨u, hu, hk⟩ := hu
    rw [hpending, foldl_takePending_call, mem_keys_flush]
    refine Or.inr (List.mem_map_of_mem ?_)
    refine ((Merger.turn ha s).mem_renewed).mpr ⟨ht, ?_⟩
    refine Merger.mem_added_callScope.mpr ⟨u, hu, ?_⟩
    rw [Task.key, Task.key, hk]

/-- When the call hands in all merged tasks, they are all that is pending. -/
theorem Queue.tasks_of_idle {q : Queue} {calls : List MergerCall} {c : MergerCall}
    (ha : Admissible (calls ++ [c])) (hq : q.isIdle = true) {s : Scope}
    (hall : ∀ t ∈ (Merger.after (calls ++ [c])).get s,
      ∃ u ∈ c.submitted s, u.mergeKey = t.mergeKey) :
    (((q.applyAll ((Merger.after calls).call c).2).pending.get s).map (·.task)).Perm
      ((Merger.after (calls ++ [c])).get s) := by
  obtain ⟨hmem, hnodup, hkeys⟩ := pending_of_idle ha hq s
  have hdistinct := Merger.distinct_after ha
  refine (List.perm_ext_iff_of_nodup ?_ (hdistinct.nodup s)).mpr fun t => ⟨fun ht => ?_, fun ht => ?_⟩
  · refine List.Nodup.of_map (·.key s) ?_
    have hkey : ∀ e ∈ (q.applyAll ((Merger.after calls).call c).2).pending.get s,
        ((·.key s) ∘ (·.task)) e = e.key := fun e he => (hmem e he).2.symm
    rw [List.map_map, List.map_congr_left hkey]
    exact hnodup
  · obtain ⟨e, he, rfl⟩ := List.mem_map.mp ht
    exact (hmem e he).1
  · obtain ⟨e, he, hk⟩ := List.mem_map.mp (hkeys t ht (hall t ht))
    rw [(hmem e he).2] at hk
    obtain ⟨_, htask⟩ := hdistinct.keys _ _ _ _ (hmem e he).1 ht hk
    exact htask ▸ List.mem_map_of_mem he

/-- An idle pipeline that is told of a call takes up a batch of all merged tasks, if the call hands
in all of them. -/
theorem Batch.start {W : Type} {p q : Pipeline W} {calls : List MergerCall} {c : MergerCall}
    (ha : Admissible (calls ++ [c])) (hm : p.merger = Merger.after calls)
    (hidle : p.queue.isIdle = true) (hworkers : ∀ w ∈ p.workers, w.stage = .idle)
    (hinbox : p.inbox = []) (hlive : p.coordinator = .running) (hopen : p.closing = false)
    (hall : ∀ s, ∀ t ∈ (Merger.after (calls ++ [c])).get s,
      ∃ u ∈ c.submitted s, u.mergeKey = t.mergeKey)
    (hq : q.front = { p with merger := (p.merger.call c).1
                             queue := p.queue.applyAll (p.merger.call c).2 }.front) :
    Batch (Merger.after (calls ++ [c])) p.notices q [] := by
  refine congr ?_ hq
  have hheld : ∀ {α : Type} (f : Stage → Option α), f .idle = none →
      Pipeline.onHand f p.workers = [] := fun f hf =>
    List.filterMap_eq_nil_iff.mpr fun w hw => by rw [hworkers w hw, hf]
  have hclaimed : p.held = [] := hheld _ rfl
  have hunder : p.underway = [] := by
    rw [Pipeline.underway, hinbox, hheld _ rfl]
    rfl
  have howed : p.owed = 0 := by
    rw [Pipeline.owed, hinbox, List.countP_eq_zero.mpr fun w hw => by
      rw [hworkers w hw]
      simp [Stage.owes]]
    rfl
  have hpending := Queue.pending_of_idle ha hidle
  have htasks := fun s => Queue.tasks_of_idle ha hidle (hall s)
  simp only [Queue.isIdle, Bool.and_eq_true, List.isEmpty_iff, decide_eq_true_eq] at hidle
  rw [← hm] at hpending htasks
  constructor
  · show (p.merger.call c).1 = _
    rw [hm, Merger.after_append]
  · exact hopen
  · exact Or.inl hlive
  · intro e he
    exact absurd (hinbox ▸ he) List.not_mem_nil
  · intro s
    show (_ ++ heldIn s p.held ++ []).Perm _
    rw [hclaimed]
    simpa [heldIn] using htasks s
  · intro s e he
    exact ((hpending s).1 e he).2
  · intro c' hc'
    exact absurd (hclaimed ▸ hc') List.not_mem_nil
  · show (p.queue.applyAll _).running.Perm (p.held.map _)
    rw [Queue.running_applyAll, hidle.1.2, hclaimed]
    rfl
  · show (p.queue.applyAll _).unreported = p.owed
    rw [Queue.unreported_applyAll, howed]
    exact hidle.2
  · show ((p.notices ++ p.underway).map Notice.gist).Perm _
    rw [hunder, List.append_nil, List.map_nil, List.append_nil]
  · rintro (hc' | hd)
    · exact absurd (hclaimed ▸ hc') List.not_mem_nil
    · exact absurd hd List.not_mem_nil

end PrecompiledHeaders
