import PrecompiledHeaders.Proofs.Pipeline.Delivery
import PrecompiledHeaders.Proofs.Pipeline.Filing
/-! The run of a pipeline as moves of the merger and the queue behind it. Whatever happens is one move
at most, so a place among the moves is a place in the run. -/
namespace PrecompiledHeaders

/-- Each set is made for one part, which is the only member of both its tasks. -/
def MergerCall.OfParts : MergerCall → Prop
  | .merge sets _ => ∀ set ∈ sets, ∃ id, ∀ s, (set.get s).members = [id]
  | .remove _ => True

theorem MergerCall.OfParts.wellFormed {c : MergerCall} (h : c.OfParts) : c.WellFormed := by
  intro s t ht
  cases c with
  | merge sets extra =>
    obtain ⟨set, hset, rfl⟩ := List.mem_map.mp ht
    obtain ⟨id, hid⟩ := h set hset
    show (set.get s).members ≠ [] ∧ (set.get s).members.Nodup
    rw [hid]
    exact ⟨List.cons_ne_nil _ _, List.nodup_singleton _⟩
  | remove ids => exact absurd ht List.not_mem_nil

/-- A part is spoken of in both scopes or in none. -/
theorem MergerCall.OfParts.mentions {c : MergerCall} (h : c.OfParts) (s s' : Scope) {x : PartId}
    (hx : c.mentions s x ≠ []) : c.mentions s' x ≠ [] := by
  cases c with
  | merge sets extra =>
    obtain ⟨m, hm⟩ := List.exists_mem_of_ne_nil _ hx
    obtain ⟨t, ht, _⟩ := List.mem_map.mp hm
    obtain ⟨ht, hmem⟩ := List.mem_filter.mp ht
    obtain ⟨set, hset, rfl⟩ := List.mem_map.mp ht
    obtain ⟨id, hid⟩ := h set hset
    have hmem' : x ∈ (Merger.withExtra extra (set.get s')).members := by
      show x ∈ (set.get s').members
      have hmem : x ∈ (set.get s).members := of_decide_eq_true hmem
      rwa [hid] at hmem ⊢
    exact List.ne_nil_of_mem (Merger.mem_mentions.mpr ⟨List.mem_map_of_mem hset, hmem'⟩)
  | remove ids => exact hx

namespace Pipeline

variable {W : Type} [World W] {α : Type} {p q : Pipeline W} {o : Occurrence W}

/-! ### Moves -/

/-- How the merger is told of these parts, unless one of them cannot be collected. -/
def handsIn (p : Pipeline W) (parts : List Part) : List Move :=
  match (collectTasks p.provider p.workspace parts).1 with
  | .ok sets => [.call (.merge sets p.extra)]
  | .error _ => []

def handsInAgain (p : Pipeline W) (ids : List PartId) : List Move :=
  match ids.filterMap (p.parts[·]?) with
  | [] => []
  | parts => p.handsIn parts

/-- What handling an event comes to. -/
def movesOf (p : Pipeline W) : Event → List Move
  | .addParts parts extra => { p with extra := extra }.handsIn parts
  | .removeParts ids => [.call (.remove ids)]
  | .updateUnsaved fs =>
    let (hit, provider, files) := p.provider.updateUnsaved p.workspace.files fs
    { p with provider := provider
             workspace := { p.workspace with files := files } }.handsInAgain hit
  | .removeUnsaved paths =>
    let (hit, provider, files) := p.provider.removeUnsaved p.workspace.files paths
    { p with provider := provider
             workspace := { p.workspace with files := files } }.handsInAgain hit
  | .filesChanged paths => (p.mark (p.hitBy paths)).handsInAgain (p.hitBy paths)
  | .taskFinished _ _ => [.reported]
  | .shutdown => []

/-- The move that the merger and the queue see. -/
def moves (p : Pipeline W) : Occurrence W → List Move
  | .step .coordinate =>
    match p.coordinator, p.inbox with
    | .running, event :: _ => p.movesOf event
    | _, _ => []
  | .step (.work i _ _) =>
    match p.workers[i]? with
    | some ⟨scope, .idle⟩ => if p.closing then [] else [.claim scope]
    | some ⟨_, .ended claimed _⟩ => [.finish claimed.key]
    | _ => []
  | _ => []

/-- The merger and the queue by themselves. -/
def workflow (p : Pipeline W) : Workflow := ⟨p.merger, p.queue⟩

theorem workflow_submit (p : Pipeline W) (parts : List Part) :
    (p.submit parts).workflow = (p.handsIn parts).foldl Workflow.next p.workflow := by
  rcases p.submit_eq parts with ⟨f, provider, ws, hcollect, heq⟩ |
    ⟨sets, provider, ws, watch, troubles, hcollect, heq⟩
  · rw [heq, handsIn, hcollect]
    rfl
  · rw [heq, handsIn, hcollect]
    rfl

theorem workflow_resubmit (p : Pipeline W) (ids : List PartId) :
    (p.resubmit ids).workflow = (p.handsInAgain ids).foldl Workflow.next p.workflow := by
  rw [resubmit, handsInAgain]
  cases ids.filterMap (p.parts[·]?) with
  | nil => rfl
  | cons part parts => exact workflow_submit p (part :: parts)

theorem workflow_handle (p : Pipeline W) (event : Event) :
    (p.handle event).workflow = (p.movesOf event).foldl Workflow.next p.workflow := by
  cases event with
  | addParts parts extra =>
    exact workflow_submit { p with
      parts := parts.foldl (fun m (part : Part) => m.insert part.id part) p.parts
      extra := extra } parts
  | removeParts ids =>
    obtain ⟨_, _, _, _, heq⟩ := p.removeParts_eq ids
    rw [handle, heq]
    rfl
  | updateUnsaved fs => exact workflow_resubmit _ _
  | removeUnsaved paths => exact workflow_resubmit _ _
  | filesChanged paths =>
    rw [handle_filesChanged]
    exact workflow_resubmit _ _
  | taskFinished | shutdown => rfl

theorem moves_of_handled {event : Event} (h : Handled p event q) :
    p.moves (.step .coordinate) = p.movesOf event ∧
      (p.step .coordinate).workflow = q.workflow := by
  have hmoves : p.moves (.step .coordinate) = p.movesOf event := by
    obtain ⟨hlive, rest, hin, _⟩ := h
    rw [moves, hlive, hin]
  refine ⟨hmoves, ?_⟩
  rcases h.step with ⟨heq, _⟩ | ⟨heq, _⟩ | ⟨heq, _⟩ <;> rw [heq] <;> rfl

/-- A worker that cannot go on is at the gate of the compiler, or finds nothing to claim. -/
theorem workflow_work (p : Pipeline W) (i : Nat) (waits permitted : Bool) :
    (p.occur (.step (.work i waits permitted))).workflow =
      (p.moves (.step (.work i waits permitted))).foldl Workflow.next p.workflow := by
  rw [occur, step, moves]
  cases hw : p.workers[i]? with
  | none => simp [work, hw]
  | some worker =>
    obtain ⟨scope, stage⟩ := worker
    rw [work, hw]
    cases stage with
    | idle =>
      dsimp only
      rw [claim]
      by_cases hclosing : p.closing
      · rw [if_pos hclosing, if_pos hclosing]
        rfl
      · rw [if_neg hclosing, if_neg hclosing, List.foldl_cons, List.foldl_nil, Workflow.next]
        cases hclaim : p.queue.claim scope with
        | none => simp [workflow, hclaim]
        | some found =>
          obtain ⟨claimed, queue⟩ := found
          simp only [workflow, hclaim]
          rfl
    | claimed claimed =>
      dsimp only
      rw [lookUp_eq]
      rfl
    | based claimed base =>
      dsimp only
      rw [plan_eq]
      rfl
    | compiling claimed job print waiting =>
      dsimp only
      split <;> rfl
    | ended claimed outcome =>
      rw [Option.getD_some, List.foldl_cons, List.foldl_nil, Workflow.next]
      cases hf : p.queue.finish claimed.key with
      | none =>
        obtain ⟨troubles, hnote⟩ := p.noteFailure_eq claimed.key outcome
        simp only [finish, hnote, workflow, hf]
        rfl
      | some found =>
        obtain ⟨f, queue⟩ := found
        obtain ⟨_, _, _, heq⟩ := finish_eq hf i outcome
        rw [heq]
        simp only [workflow, hf]
        rfl
    | notifying s notice => rfl
    | reporting s notice =>
      dsimp only
      rw [Option.getD_some, send]
      split <;> rfl

/-- What happens is seen by the merger and the queue as these moves. -/
theorem workflow_occur (p : Pipeline W) (o : Occurrence W) :
    (p.occur o).workflow = (p.moves o).foldl Workflow.next p.workflow := by
  cases o with
  | step s =>
    cases s with
    | coordinate =>
      by_cases hturn : p.coordinator = .running ∧ p.inbox ≠ []
      · obtain ⟨event, q, hhandled⟩ := exists_handled hturn
        obtain ⟨hmoves, hstep⟩ := moves_of_handled hhandled
        obtain ⟨_, rest, _, rfl⟩ := hhandled
        rw [occur, hstep, hmoves]
        exact workflow_handle { p with inbox := rest } event
      · have hnone : p.moves (.step .coordinate) = [] := by
          rw [moves]
          split
          · rename_i hlive hin
            exact absurd ⟨hlive, by rw [hin]; exact List.cons_ne_nil _ _⟩ hturn
          · rfl
        rw [occur, step_coordinate_of_not hturn, hnone, List.foldl_nil]
    | work i waits permitted => exact workflow_work p i waits permitted
  | send event =>
    rw [occur, send]
    split <;> rfl
  | change | number | close => rfl

theorem workflow_during (p : Pipeline W) (os : List (Occurrence W)) :
    (p.during os).workflow = (p.seen moves os).foldl Workflow.next p.workflow := by
  induction os generalizing p with
  | nil => rfl
  | cons o os ih =>
    rw [seen, List.foldl_append, ← workflow_occur]
    exact ih (p.occur o)

/-- From the start of a pipeline on, its merger and its queue have run through the moves. -/
theorem workflow_start (workspace : Workspace W) (pchDir : FilePath) (records : RecordStore)
    (artifacts : ArtifactStore) (workers : List Scope) (exitWhenIdle watches : Bool)
    (os : List (Occurrence W)) :
    let p := start workspace pchDir records artifacts workers exitWhenIdle watches
    Workflow.run (p.seen moves os) = (p.during os).workflow := by
  intro p
  exact (workflow_during p os).symm

/-! ### Places -/

theorem length_handsIn_le (p : Pipeline W) (parts : List Part) :
    (p.handsIn parts).length ≤ 1 := by
  rw [handsIn]
  split
  · exact Nat.le_refl 1
  · exact Nat.zero_le 1

theorem length_movesOf_le (p : Pipeline W) (event : Event) : (p.movesOf event).length ≤ 1 := by
  have hagain : ∀ (q : Pipeline W) ids, (q.handsInAgain ids).length ≤ 1 := by
    intro q ids
    rw [handsInAgain]
    cases ids.filterMap (q.parts[·]?) with
    | nil => exact Nat.zero_le 1
    | cons part parts => exact length_handsIn_le q _
  cases event with
  | addParts parts extra => exact length_handsIn_le _ _
  | removeParts | taskFinished => exact Nat.le_refl 1
  | updateUnsaved | removeUnsaved | filesChanged => exact hagain _ _
  | shutdown => exact Nat.zero_le 1

theorem length_moves_le (p : Pipeline W) (o : Occurrence W) : (p.moves o).length ≤ 1 := by
  rw [moves.eq_def]
  split
  · split
    · exact length_movesOf_le _ _
    · exact Nat.zero_le 1
  · split
    · split
      · exact Nat.zero_le 1
      · exact Nat.le_refl 1
    · exact Nat.le_refl 1
    · exact Nat.zero_le 1
  · exact Nat.zero_le 1

/-- Where an observer writes down one thing at most, what was written was seen at one place. -/
theorem seen_eq_append_cons {f : Pipeline W → Occurrence W → List α}
    (hf : ∀ p o, (f p o).length ≤ 1) {p : Pipeline W} {os : List (Occurrence W)} {before after : List α}
    {a : α} (h : p.seen f os = before ++ a :: after) :
    ∃ pre o post, os = pre ++ o :: post ∧ p.seen f pre = before ∧ f (p.during pre) o = [a] ∧
      ((p.during pre).occur o).seen f post = after := by
  induction os generalizing p before with
  | nil => simp [seen] at h
  | cons o os ih =>
    rw [seen] at h
    have hone := hf p o
    cases hfo : f p o with
    | nil =>
      rw [hfo, List.nil_append] at h
      obtain ⟨pre, o', post, rfl, hpre, ho', hpost⟩ := ih h
      exact ⟨o :: pre, o', post, rfl, by rw [seen, hfo, hpre]; rfl, ho', hpost⟩
    | cons b bs =>
      obtain rfl : bs = [] := by
        rw [hfo, List.length_cons] at hone
        exact List.eq_nil_of_length_eq_zero (by omega)
      rw [hfo, List.singleton_append] at h
      cases before with
      | nil =>
        obtain ⟨rfl, rfl⟩ := List.cons.inj h
        exact ⟨[], o, os, rfl, rfl, hfo, rfl⟩
      | cons c before =>
        obtain ⟨rfl, hrest⟩ := List.cons.inj h
        obtain ⟨pre, o', post, rfl, hpre, ho', hpost⟩ := ih hrest
        exact ⟨o :: pre, o', post, rfl, by rw [seen, hfo, hpre]; rfl, ho', hpost⟩

/-! ### Calls -/

theorem members_collectTasks {provider : Provider} {ws : Workspace W} {parts : List Part}
    {sets : List TaskSet} (h : (collectTasks provider ws parts).1 = .ok sets) :
    ∀ set ∈ sets, ∃ id, ∀ s, (set.get s).members = [id] := by
  induction parts generalizing provider ws sets with
  | nil =>
    obtain rfl := Except.ok.inj h
    exact fun set hset => absurd hset List.not_mem_nil
  | cons part parts ih =>
    revert h
    rw [collectTasks]
    rcases provider.create ws part with ⟨f | d, provider, ws⟩
    · intro h
      cases h
    · dsimp only
      rcases hrest : collectTasks provider ws parts with ⟨f | sets', provider', ws'⟩
      · intro h
        cases h
      · intro h
        obtain rfl := Except.ok.inj h
        exact List.forall_mem_cons.mpr
          ⟨⟨part.id, fun s => (part.tasks_within d s).1⟩, ih (congrArg Prod.fst hrest)⟩

theorem ofParts_handsIn {parts : List Part} {c : MergerCall}
    (h : .call c ∈ p.handsIn parts) : c.OfParts := by
  rw [handsIn] at h
  split at h
  · rename_i sets hsets
    obtain rfl := Move.call.inj (List.mem_singleton.mp h)
    exact members_collectTasks hsets
  · exact absurd h List.not_mem_nil

theorem ofParts_movesOf {event : Event} {c : MergerCall} (h : .call c ∈ p.movesOf event) :
    c.OfParts := by
  have hagain : ∀ (q : Pipeline W) ids, .call c ∈ q.handsInAgain ids → c.OfParts := by
    intro q ids hc
    rw [handsInAgain] at hc
    cases hparts : ids.filterMap (q.parts[·]?) with
    | nil =>
      rw [hparts] at hc
      exact absurd hc List.not_mem_nil
    | cons part parts =>
      rw [hparts] at hc
      exact ofParts_handsIn hc
  cases event with
  | addParts parts extra => exact ofParts_handsIn h
  | removeParts ids =>
    obtain rfl := Move.call.inj (List.mem_singleton.mp h)
    trivial
  | updateUnsaved | removeUnsaved | filesChanged => exact hagain _ _ h
  | taskFinished => exact Move.noConfusion (List.mem_singleton.mp h)
  | shutdown => exact absurd h List.not_mem_nil

theorem ofParts_moves {c : MergerCall} (h : .call c ∈ p.moves o) : c.OfParts := by
  rw [moves.eq_def] at h
  split at h
  · split at h
    · exact ofParts_movesOf h
    · exact absurd h List.not_mem_nil
  · split at h
    · split at h
      · exact absurd h List.not_mem_nil
      · exact Move.noConfusion (List.mem_singleton.mp h)
    · exact Move.noConfusion (List.mem_singleton.mp h)
    · exact absurd h List.not_mem_nil
  · exact absurd h List.not_mem_nil

theorem mem_seen {f : Pipeline W → Occurrence W → List α} {p : Pipeline W}
    {os : List (Occurrence W)} {a : α} (h : a ∈ p.seen f os) :
    ∃ pre o post, os = pre ++ o :: post ∧ a ∈ f (p.during pre) o := by
  induction os generalizing p with
  | nil => exact absurd h List.not_mem_nil
  | cons o os ih =>
    rcases List.mem_append.mp h with h | h
    · exact ⟨[], o, os, rfl, h⟩
    · obtain ⟨pre, o', post, rfl, ho'⟩ := ih h
      exact ⟨o :: pre, o', post, rfl, ho'⟩

theorem ofParts_calls {p : Pipeline W} {os : List (Occurrence W)} :
    ∀ c ∈ Workflow.calls (p.seen moves os), c.OfParts := by
  intro c hc
  obtain ⟨_, _, _, _, hmove⟩ := mem_seen (Workflow.mem_calls.mp hc)
  exact ofParts_moves hmove

end Pipeline
end PrecompiledHeaders
