import PrecompiledHeaders.Proofs.Pipeline.Provenance
/-! Where a header goes back to. In a run from an empty store a part's header is what came of the last
build for the part, and that build goes back to the place where a worker took up its task. -/
namespace PrecompiledHeaders

open Workflow (Loyal Unspoken Silent Submits LastBuild calls run)

namespace Pipeline

variable {W : Type} [World W] {α : Type}

theorem throughout_append {P : Pipeline W → Occurrence W → Prop} {p : Pipeline W}
    {os others : List (Occurrence W)} :
    Throughout P p (os ++ others) ↔ Throughout P p os ∧ Throughout P (p.during os) others := by
  induction os generalizing p with
  | nil => exact (iff_of_eq (true_and _)).symm
  | cons o os ih =>
    rw [List.cons_append, Throughout, Throughout, ih, and_assoc]
    rfl

/-- What somebody wrote down of two beginnings of a run is the same only if they are as long. -/
theorem eq_of_seen_eq {f : Pipeline W → Occurrence W → List α} {o : Pipeline W}
    {pre pre' mid mid' : List (Occurrence W)} {a b : Occurrence W}
    (hsame : pre ++ a :: mid = pre' ++ b :: mid') (hseen : o.seen f pre = o.seen f pre')
    (ha : f (o.during pre) a ≠ []) (hb : f (o.during pre') b ≠ []) :
    pre = pre' ∧ a = b ∧ mid = mid' := by
  have hlater : ∀ {pre c : List (Occurrence W)} {a : Occurrence W}, f (o.during pre) a ≠ [] →
      o.seen f pre ≠ o.seen f (pre ++ a :: c) := by
    intro pre c a hne heq
    rw [seen_append, seen] at heq
    exact hne (List.append_eq_nil_iff.mp (List.self_eq_append_right.mp heq)).1
  rcases List.append_eq_append_iff.mp hsame with ⟨c, rfl, hmid⟩ | ⟨c, rfl, hmid⟩
  · cases c with
    | nil =>
      obtain ⟨rfl, rfl⟩ := List.cons.inj hmid
      exact ⟨(List.append_nil _).symm, rfl, rfl⟩
    | cons d c =>
      obtain ⟨rfl, rfl⟩ := List.cons.inj hmid
      exact absurd hseen (hlater ha)
  · cases c with
    | nil =>
      obtain ⟨rfl, rfl⟩ := List.cons.inj hmid
      exact ⟨List.append_nil _, rfl, rfl⟩
    | cons d c =>
      obtain ⟨rfl, rfl⟩ := List.cons.inj hmid
      exact absurd hseen.symm (hlater hb)

section

variable {W : Type} [Workshop W] [LawfulWorkshop W] {ws : Workspace W} {dir : FilePath}
  {records : RecordStore} {artifacts : ArtifactStore} {workers : List Scope} {exits watches : Bool}
  {os later : List (Occurrence W)} {h h' : Holdings} {x : PartId} {s : Scope}

omit [LawfulWorkshop W] in
/-- A run from a start is a run of the merger and its queue. -/
theorem queue_during (os : List (Occurrence W)) :
    let o := start ws dir records artifacts workers exits watches
    (o.during os).queue = (run (o.seen moves os)).queue ∧
      (o.during os).merger = (run (o.seen moves os)).merger := by
  intro o
  rw [show run (o.seen moves os) = (o.during os).workflow from workflow_start _ _ _ _ _ _ _ os]
  exact ⟨rfl, rfl⟩

theorem regular_during {os : List (Occurrence W)} :
    let o := start ws dir records artifacts workers exits watches
    Throughout Tended o os → Admissible (calls (o.seen moves os)) → Regular (o.during os) := by
  intro o ht ha
  obtain ⟨horderly, hsane, ended, reports, ns, cs, haccounts⟩ := during_induction
    (motive := fun q => Orderly q ∧ q.provider.Sane q.workspace.files ∧
      ∃ ended reports ns cs, Accounts q ended reports ns cs)
    (P := Tended) (p := o) (fun q o' hq ht => by
      obtain ⟨horderly, hsane, _, _, _, _, haccounts⟩ := hq
      refine ⟨horderly.occur ht.supplies, horderly.sane_occur hsane ht, _, _, _, _,
        haccounts.occur o' fun event he => ?_⟩
      subst he
      exact ht.2)
    ⟨orderly_start _ _ _ _ _ _ _, Provider.sane_start _ _, _, _, _, _, accounts_start _ _ _ _ _ _ _⟩
    ht
  refine ⟨horderly, hsane, haccounts.keys.nodup_iff.mpr haccounts.nodup, fun s c q hc => ?_,
    fun i s c outcome hw => haccounts.finishes hw⟩
  rw [(queue_during os).1] at hc
  obtain ⟨p, hp, rfl, _⟩ := Queue.claim_eq_some hc
  exact ((Workflow.consistent _ ha).merged ha hp).2.symm

/-- Everything that there is after a run goes back to a draft. -/
theorem provenance_during (hempty : artifacts.Shows ws.world .empty)
    (hjobs : Workshop.jobs ws.world = []) {os : List (Occurrence W)} :
    let o := start ws dir records artifacts workers exits watches
    Throughout Tended o os → Admissible (calls (o.seen moves os)) → ∃ h, Provenance o os h := by
  intro o ht ha
  induction os using List.reverseRecOn with
  | nil =>
    refine ⟨.empty, rfl, hempty, fun j hj => ?_, fun print path hpath => (by cases hpath),
      fun i s stage cl hw hc => ?_⟩
    · have hnone : j ∈ Workshop.jobs ws.world := hj
      rw [hjobs] at hnone
      exact absurd hnone List.not_mem_nil
    · obtain ⟨scope, _, hidle⟩ := List.mem_map.mp (List.mem_of_getElem? hw)
      obtain ⟨rfl, rfl⟩ := Worker.mk.inj hidle
      cases hc
  | append_singleton os o' ih =>
    obtain ⟨hbefore, hnow, _⟩ := throughout_append.mp ht
    rw [seen_snoc] at ha
    have ha' := Workflow.admissible_left ha
    obtain ⟨h, hp⟩ := ih hbefore ha'
    obtain ⟨h', hp', _⟩ := hp.occur (regular_during hbefore ha') hnow
    exact ⟨h', hp'⟩

/-! ### Headers that stay -/

omit [LawfulWorkshop W] in
/-- The parts that lose their headers are told to the merger. -/
theorem exists_remove_of_losing {p : Pipeline W} {o' : Occurrence W} (hx : x ∈ p.losing o') :
    ∃ ids, .call (.remove ids) ∈ p.moves o' ∧ x ∈ ids := by
  cases o' with
  | step step =>
    cases step with
    | coordinate =>
      rw [losing] at hx
      split at hx
      · rename_i event rest hlive hin
        have hmoves : p.moves (.step .coordinate) = p.movesOf event := by rw [moves, hlive, hin]
        cases event with
        | removeParts ids => exact ⟨ids, hmoves ▸ List.mem_singleton_self _, hx⟩
        | _ => exact absurd hx List.not_mem_nil
      · exact absurd hx List.not_mem_nil
    | work => exact absurd hx List.not_mem_nil
  | send | change | number | close => exact absurd hx List.not_mem_nil

omit [LawfulWorkshop W] in
/-- A build that ends is a move. -/
theorem finish_of_mem_endings {p : Pipeline W} {o' : Occurrence W} {e : EndedBuild}
    (he : e ∈ p.endings o') : ∃ k q, p.moves o' = [.finish k] ∧ p.queue.finish k = some (e.finished, q) := by
  cases o' with
  | step step =>
    cases step with
    | coordinate => exact absurd he List.not_mem_nil
    | work i waits permitted =>
      rw [endings] at he
      split at he
      · rename_i s c outcome hw
        obtain ⟨⟨f, q⟩, hf, rfl⟩ := List.mem_map.mp he
        exact ⟨c.key, q, by simp only [moves, hw], Option.mem_toList.mp hf⟩
      · exact absurd he List.not_mem_nil
  | send | change | number | close => exact absurd he List.not_mem_nil

/-- A part that is not spoken of, and for which no build ends, keeps its header. -/
theorem header_kept {os later : List (Occurrence W)} :
    let o := start ws dir records artifacts workers exits watches
    Throughout Tended o (os ++ later) → Admissible (calls (o.seen moves (os ++ later))) →
    Unspoken s x ((o.during os).seen moves later) →
    Silent s x (o.seen moves os) ((o.during os).seen moves later) →
    Provenance o os h → ∃ h', Provenance o (os ++ later) h' ∧ h'.header x s = h.header x s ∧
      Workshop.jobs (o.during os).workspace.world ⊆
        Workshop.jobs (o.during (os ++ later)).workspace.world := by
  intro o ht ha hunspoken hsilent hp
  induction later using List.reverseRecOn with
  | nil =>
    rw [List.append_nil]
    exact ⟨h, hp, rfl, List.Subset.refl _⟩
  | append_singleton later o' ih =>
    rw [← List.append_assoc] at ht ha ⊢
    obtain ⟨hbefore, hnow, _⟩ := throughout_append.mp ht
    have ha' := ha
    rw [seen_snoc] at ha' hunspoken hsilent
    have hafter : o.during (os ++ later) = (o.during os).during later := during_append _ _ _
    obtain ⟨h', hp', hkept, hlog⟩ := ih hbefore (Workflow.admissible_left ha')
      (fun c hc => hunspoken c (List.mem_append_left _ hc))
      (fun before k behind hb => hsilent before k (behind ++ ((o.during os).during later).moves o')
        (by rw [hb, List.append_assoc]; rfl))
    obtain ⟨h'', hp'', hturns⟩ := hp'.occur
      (regular_during hbefore (Workflow.admissible_left ha')) hnow
    refine ⟨h'', hp'', (hturns.kept x s (fun hx => ?_) fun e he hret hs hx => ?_).trans hkept,
      List.Subset.trans hlog (during_snoc o _ o' ▸ hturns.log)⟩
    · obtain ⟨ids, hcall, hx⟩ := exists_remove_of_losing hx
      rw [hafter] at hcall
      have hnone := hunspoken _ (List.mem_append_right _ hcall)
      rw [MergerCall.mentions, if_pos hx] at hnone
      cases hnone
    · obtain ⟨k, q, hmove, hf⟩ := finish_of_mem_endings he
      rw [(queue_during (os ++ later)).1, seen_append] at hf
      rw [hafter] at hmove
      exact hsilent _ k [] (by rw [hmove]) _ q hf hret hs hx

/-! ### Where a header comes from -/

omit [LawfulWorkshop W] in
/-- Two claims of which neither build ended are one. -/
theorem claims_unique {pre pre' mid mid' : List (Occurrence W)} {i i' : Nat} {s s' : Scope}
    {cl cl' : Claimed} {waits permitted waits' permitted' : Bool} :
    let o := start ws dir records artifacts workers exits watches
    pre ++ .step (.work i waits permitted) :: mid = pre' ++ .step (.work i' waits' permitted') :: mid' →
    (o.during pre).Claims i s cl → (o.during pre').Claims i' s' cl' → cl'.key = cl.key →
    .finish cl.key ∉ (o.during pre).seen moves (.step (.work i waits permitted) :: mid) →
    .finish cl.key ∉ (o.during pre').seen moves (.step (.work i' waits' permitted') :: mid') →
    pre = pre' ∧ i = i' ∧ s = s' ∧ cl = cl' := by
  intro o hsame hc hc' hk hend hend'
  have hmoves := congrArg (o.seen moves) hsame
  rw [seen_append, seen_append, seen, seen, hc.moves, hc'.moves] at hmoves
  rw [seen, hc.moves] at hend
  rw [seen, hc'.moves] at hend'
  obtain ⟨q, hq⟩ := hc.claim
  obtain ⟨q', hq'⟩ := hc'.claim
  have hrun := hq
  have hrun' := hq'
  rw [(queue_during pre).1] at hrun
  rw [(queue_during pre').1] at hrun'
  obtain ⟨hpre, _⟩ := Workflow.claim_unique hmoves hrun hrun' hk
    (fun h => hend (List.mem_append_right _ h)) fun h => hend' (List.mem_append_right _ h)
  obtain ⟨rfl, hwork, _⟩ := eq_of_seen_eq hsame hpre (by rw [hc.moves]; exact List.cons_ne_nil _ _)
    (by rw [hc'.moves]; exact List.cons_ne_nil _ _)
  obtain ⟨rfl, _⟩ := Step.work.inj (Occurrence.step.inj hwork)
  obtain ⟨rfl, _⟩ := Worker.mk.inj (Option.some.inj (hc.worker.symm.trans hc'.worker))
  obtain ⟨rfl, _⟩ := Prod.mk.inj (Option.some.inj (hq.symm.trans hq'))
  exact ⟨rfl, rfl, rfl, rfl⟩

/-- The header of a part is what came of the last build for it. -/
theorem exists_last_claim (hempty : artifacts.Shows ws.world .empty)
    (hjobs : Workshop.jobs ws.world = []) {os : List (Occurrence W)} {pm mm qm : List Move}
    {cl : Claimed} {f : Finished} :
    let o := start ws dir records artifacts workers exits watches
    Throughout Tended o os → Admissible (calls (o.seen moves os)) →
    LastBuild (o.seen moves os) s x pm mm qm cl f → ∃ pre i waits permitted post outcome h,
      os = pre ++ .step (.work i waits permitted) :: post ∧ o.seen moves pre = pm ∧
      (o.during pre).seen moves (.step (.work i waits permitted) :: post) =
        .claim s :: mm ++ .finish cl.key :: qm ∧
      (o.during pre).Claims i s cl ∧ Provenance o os h ∧ h.header x s = outcome.header? ∧
      Drawn (Looked o pre (.step (.work i waits permitted) :: post) i s cl) dir cl
        (o.seen drafts os) (Workshop.jobs (o.during os).workspace.world) (.ended cl outcome) := by
  intro o ht ha hb
  -- the places of the claim and of the end
  have hmoves := hb.moves
  rw [List.append_assoc, List.cons_append] at hmoves
  obtain ⟨pre, o₁, rest, rfl, rfl, hone, hrest⟩ := seen_eq_append_cons length_moves_le hmoves
  obtain ⟨i, waits, permitted, rfl, hidle, hopen⟩ :=
    claim_mem_moves (hone ▸ List.mem_singleton_self (Move.claim s))
  obtain ⟨mid, o₂, post, rfl, rfl, htwo, hpost⟩ := seen_eq_append_cons length_moves_le hrest
  obtain ⟨q₁, hclaim⟩ := hb.claim
  have hclaims : (o.during pre).Claims i s cl :=
    ⟨hidle, hopen, q₁, by rw [(queue_during pre).1]; exact hclaim⟩
  obtain ⟨os₁, hos₁⟩ : ∃ os₁, pre ++ .step (.work i waits permitted) :: mid = os₁ := ⟨_, rfl⟩
  have hos : pre ++ .step (.work i waits permitted) :: (mid ++ o₂ :: post) = os₁ ++ [o₂] ++ post := by
    rw [← hos₁]
    simp
  have hduring : ((o.during pre).occur (.step (.work i waits permitted))).during mid = o.during os₁ := by
    rw [← hos₁, during_append]
    rfl
  have hseen : o.seen moves os₁ = o.seen moves pre ++ .claim s ::
      ((o.during pre).occur (.step (.work i waits permitted))).seen moves mid := by
    rw [← hos₁, seen_append, seen, hone]
    rfl
  rw [hduring] at htwo hpost
  rw [← during_snoc] at hpost
  obtain ⟨i', waits', permitted', s', cl', outcome, rfl, hended, hkey⟩ :=
    finish_mem_moves (htwo ▸ List.mem_singleton_self (Move.finish cl.key))
  have ht' := hos ▸ ht
  have ha' := hos ▸ ha
  obtain ⟨⟨ht₁, hnow, _⟩, _⟩ := (throughout_append.mp ht').imp_left throughout_append.mp
  have ha₁ : Admissible (calls (o.seen moves os₁)) := by
    rw [List.append_assoc, seen_append] at ha'
    exact Workflow.admissible_left ha'
  -- what ends in the hands of a worker is what was claimed
  obtain ⟨h₁, hp₁⟩ := provenance_during hempty hjobs ht₁ ha₁
  obtain ⟨pre', w, m, mid', hos₁', hsince, hdrawn⟩ := hp₁.hands i' s' _ cl' hended rfl
  obtain ⟨rfl, rfl, rfl, rfl⟩ := claims_unique (hos₁.trans hos₁') hclaims hsince.claims hkey
    (by
      rw [seen, hone]
      exact fun hmem => (List.mem_append.mp hmem).elim
        (fun hmem => Move.noConfusion (List.mem_singleton.mp hmem)) hb.unended)
    (hkey ▸ hsince.unended)
  rw [← List.append_cancel_left (hos₁.trans hos₁')] at hdrawn
  obtain ⟨q₂, hfinish⟩ := hb.finish
  rw [← hseen, ← (queue_during os₁).1] at hfinish
  have hendings : (o.during os₁).endings (.step (.work i waits' permitted')) = [⟨f, outcome⟩] := by
    have hf : (o.during os₁).queue.finish cl.key = some (f, q₂) := hfinish
    simp only [endings, hended, hf]
    rfl
  -- it is recorded, and stays on record
  obtain ⟨h₂, hp₂, hturns⟩ := hp₁.occur (regular_during ht₁ ha₁) hnow
  have hrecorded := hturns.recorded ⟨f, outcome⟩ (hendings ▸ List.mem_singleton_self _) hb.sound x
    hb.member
  rw [hb.inScope] at hrecorded
  have hlast := hb.last
  have hunspoken := hb.unspoken.right
  rw [← hseen, ← htwo, ← seen_snoc, ← hpost] at hlast
  rw [← hpost] at hunspoken
  obtain ⟨h₃, hp₃, hkept, hlog⟩ := header_kept ht' ha' hunspoken hlast hp₂
  refine ⟨pre, i, waits, permitted, _, outcome, h₃, rfl, rfl, ?_, hclaims, hos ▸ hp₃,
    hkept.trans hrecorded, ?_⟩
  · rw [seen, hone, seen_append, seen, hduring, htwo, ← during_snoc o os₁, hpost]
    rfl
  · rw [hos]
    refine hdrawn.mono (fun base hlooked => hlooked.append _) ?_ ?_
    · rw [List.append_assoc, seen_append]
      exact List.subset_append_left _ _
    · exact List.Subset.trans (during_snoc o os₁ _ ▸ hturns.log) hlog

end
end Pipeline
end PrecompiledHeaders
