import PrecompiledHeaders.Proofs.Pipeline.Provenance
import PrecompiledHeaders.Proofs.Pipeline.Rechecks
import PrecompiledHeaders.Proofs.Pipeline.Rounds
/-! Rounds seen from outside. -/
namespace PrecompiledHeaders

namespace Pipeline

variable {W : Type} [World W] {p q : Pipeline W} {i : Nat} {s : Scope}

theorem during_steps (p : Pipeline W) (steps : List Step) :
    p.during (steps.map .step) = p.after steps := List.foldl_map

theorem seen_steps {α : Type} (f : Pipeline W → Occurrence W → List α) (p : Pipeline W)
    (steps : List Step) : p.seen f (steps.map .step) = p.noted (fun q s => f q (.step s)) steps := by
  induction steps generalizing p with
  | nil => rfl
  | cons s steps ih =>
    rw [List.map_cons, seen, noted, ← ih]
    rfl

theorem notesPlans_drafts : NotesPlans (fun p s => p.drafts (.step s))
    fun (ws : Workspace W) c base => Build.drafts ws c.scope c.task base where
  coordinate _ := rfl
  plan hw := by simp only [drafts, hw]
  work := by
    rintro p i ⟨s, stage⟩ hw hnone
    simp only [drafts, hw]
    cases stage with
    | based => cases hnone
    | idle | claimed | compiling | ended | notifying | reporting => rfl

/-! ### Steps while only reports wait -/

/-- Between `p` and `q` the merger is not called, and nothing is collected. -/
structure Unmoved (p q : Pipeline W) : Prop where
  parts : q.parts = p.parts
  provider : q.provider = p.provider
  merger : q.merger = p.merger

/-- As long as only reports wait, the merger is not called. -/
theorem steps_of_reports (steps : List Step) (hin : ∀ event ∈ p.inbox, event.isReport = true) :
    Workflow.calls (p.seen moves (steps.map .step)) = [] ∧ Unmoved p (p.after steps) := by
  induction steps generalizing p with
  | nil => exact ⟨rfl, rfl, rfl, rfl⟩
  | cons step steps ih =>
    suffices hstep : Workflow.calls (p.moves (.step step)) = [] ∧ Unmoved p (p.step step) ∧
        ∀ event ∈ (p.step step).inbox, event.isReport = true by
      obtain ⟨hcalls, ⟨hparts, hprovider, hmerger⟩, hin'⟩ := hstep
      obtain ⟨hlater, hunmoved⟩ := ih hin'
      rw [List.map_cons, seen, Workflow.calls_append, hcalls]
      exact ⟨hlater, hunmoved.parts.trans hparts, hunmoved.provider.trans hprovider,
        hunmoved.merger.trans hmerger⟩
    cases step with
    | coordinate =>
      by_cases hturn : p.coordinator = .running ∧ p.inbox ≠ []
      · obtain ⟨event, q, hhandled⟩ := exists_handled hturn
        obtain ⟨hmoves, _⟩ := moves_of_handled hhandled
        obtain ⟨_, rest, hrest, hq⟩ := id hhandled
        have hreport := hin event (hrest ▸ List.mem_cons_self)
        obtain ⟨scope, notice, rfl⟩ : ∃ scope notice, event = .taskFinished scope notice := by
          cases event <;> first | exact ⟨_, _, rfl⟩ | cases hreport
        have hkept : ∀ event ∈ rest, event.isReport = true := fun event he =>
          hin event (hrest ▸ List.mem_cons_of_mem _ he)
        have hunmoved : Unmoved p q := by
          rw [hq]
          exact ⟨rfl, rfl, rfl⟩
        have hinbox : q.inbox = rest := by rw [hq]; rfl
        refine ⟨by rw [hmoves]; rfl, ?_⟩
        rcases hhandled.step with ⟨heq, _⟩ | ⟨heq, _⟩ | ⟨heq, _⟩ <;> rw [heq]
        · exact ⟨hunmoved, hinbox ▸ hkept⟩
        · exact ⟨⟨hunmoved.parts, hunmoved.provider, hunmoved.merger⟩,
            fun event he => absurd he List.not_mem_nil⟩
        · exact ⟨⟨hunmoved.parts, hunmoved.provider, hunmoved.merger⟩,
            fun event he => absurd he List.not_mem_nil⟩
      · rw [step_coordinate_of_not hturn]
        refine ⟨?_, ⟨rfl, rfl, rfl⟩, hin⟩
        have hnone : p.moves (.step .coordinate) = [] := by
          rw [moves]
          split
          · rename_i hlive hinbox
            exact absurd ⟨hlive, by rw [hinbox]; exact List.cons_ne_nil _ _⟩ hturn
          · rfl
        rw [hnone]
        rfl
    | work i waits permitted =>
      constructor
      · rw [moves]
        split
        · split <;> rfl
        · rfl
        · rfl
      · rw [step]
        cases hwork : p.work i waits permitted with
        | none => exact ⟨⟨rfl, rfl, rfl⟩, hin⟩
        | some q =>
          have hworks := works_of_work hwork
          refine ⟨⟨hworks.keeps.parts, hworks.keeps.provider, hworks.keeps.merger⟩,
            fun event he => ?_⟩
          rcases hworks.inbox he with he | ⟨_, _, rfl⟩
          · exact hin event he
          · rfl

/-! ### Parts that are handed in -/

theorem mem_parts_foldl {parts : List Part} {m : TextMap Part} {x : PartId}
    (h : x ∈ m ∨ x ∈ parts.map (·.id)) :
    x ∈ parts.foldl (fun m (part : Part) => m.insert part.id part) m := by
  induction parts generalizing m with
  | nil => exact h.resolve_right List.not_mem_nil
  | cons part parts ih =>
    refine ih ?_
    rcases h with h | h
    · exact Or.inl (Std.TreeMap.mem_insert.mpr (Or.inr h))
    · rcases List.mem_cons.mp h with rfl | h
      · exact Or.inl Std.TreeMap.mem_insert_self
      · exact Or.inr h

/-- Parts that are handed in are taken up at once. -/
theorem Quiet.took (h : p.Quiet) (hexits : p.exitWhenIdle = false) {parts : List Part}
    (extra : List String) {sets : List TaskSet} {provider : Provider} {ws : Workspace W}
    (hcollect : collectTasks p.provider p.workspace parts = (.ok sets, provider, ws)) :
    let os : List (Occurrence W) := [.send (.addParts parts extra), .step .coordinate]
    p.seen moves os = [.call (.merge sets extra)] ∧ Took p parts extra sets provider ws (p.during os) := by
  intro os
  have htook := h.takes extra hcollect
  have hduring : p.during os = p.handle (.addParts parts extra) :=
    occur_deliver h.live h.inbox rfl htook.quiet.live (htook.exits.trans hexits)
  rw [hduring]
  refine ⟨?_, htook⟩
  have hmove : { p with inbox := p.inbox ++ [Event.addParts parts extra] }.moves (.step .coordinate) =
      [.call (.merge sets extra)] := by
    simp only [moves, h.live, h.inbox, List.nil_append, movesOf, handsIn]
    rw [hcollect]
  show p.moves (.send _) ++ ((p.occur (.send _)).moves (.step .coordinate) ++ []) = _
  rw [occur, send_of_running h.live, hmove]
  rfl

end Pipeline

theorem Build.drafts_eq {W : Type} [Workshop W] {ws : Workspace W} (s : Scope) {t : Task}
    (ht : t.Known ws.files) (base : Option FilePath) :
    drafts ws s t base = [⟨print ws.files ws.world s t base, base⟩] := by
  rw [drafts, fingerprint_eq ht]

end PrecompiledHeaders
