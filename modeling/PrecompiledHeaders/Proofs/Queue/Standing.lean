import PrecompiledHeaders.Proofs.Queue.Completion
import PrecompiledHeaders.Proofs.Queue.Displacement
/-! What stands when the queue is idle. As long as builds speak for members of their tasks only, the
last end of a build that speaks for a part is that of the task which the part is a member of, and the
part was not spoken of since that build was claimed. A key that is not handed in is not built. -/
namespace PrecompiledHeaders

open Merger (after names_of_after turn notes sound_after reflects_after)

namespace Workflow

variable {es later : List Move} {scope : Scope} {k : TaskKey} {x : PartId} {e : Move}

theorem admissible_left (h : Admissible (calls (es ++ later))) : Admissible (calls es) := by
  rw [calls_append] at h
  exact h.left

/-- Builds whose result is not void end as builds of a merged task, and for members of it. -/
def Loyal (es : List Move) : Prop :=
  ∀ pre k post, es = pre ++ .finish k :: post → ∀ f q, (run pre).queue.finish k = some (f, q) →
    f.retracted = false → ∀ x ∈ f.members,
      ∃ t ∈ (run pre).merger.get f.scope, t.key f.scope = k ∧ x ∈ t.members

/-- Nothing is being built whenever the merger is called. -/
def Calm (es : List Move) : Prop :=
  ∀ pre c post, es = pre ++ .call c :: post → (run pre).queue.running = []

theorem calm_append (h : Calm es) (hlater : calls later = []) : Calm (es ++ later) := by
  intro pre c post hsplit
  have hnone : ∀ a, later ≠ a ++ .call c :: post := by
    rintro a rfl
    rw [calls_append] at hlater
    exact absurd (List.append_eq_nil_iff.mp hlater).2 (List.cons_ne_nil _ _)
  rcases List.append_eq_append_iff.mp hsplit with ⟨a, _, ha⟩ | ⟨b, rfl, hb⟩
  · exact absurd ha (hnone a)
  · cases b with
    | nil => exact absurd hb.symm (hnone [])
    | cons e b =>
      obtain ⟨rfl, _⟩ := List.cons.inj hb
      exact h pre c b rfl

theorem calm_call (h : Calm es) (hrun : (run es).queue.running = []) (c : MergerCall) :
    Calm (es ++ [.call c]) := by
  intro pre c' post hsplit
  rcases List.append_eq_append_iff.mp hsplit with ⟨a, rfl, ha⟩ | ⟨b, rfl, hb⟩
  · cases a with
    | nil =>
      rw [List.append_nil]
      exact hrun
    | cons e a => simp at ha
  · cases b with
    | nil =>
      rw [List.append_nil] at hrun
      exact hrun
    | cons e b =>
      obtain ⟨rfl, _⟩ := List.cons.inj hb
      exact h pre c' b rfl

/-- If no call hands in a part twice or comes while something is being built, there are only such
builds. -/
theorem loyal_of_calm (ha : Admissible (calls es)) (hd : ∀ c ∈ calls es, c.Separate)
    (hcalm : Calm es) : Loyal es := by
  rintro pre k post rfl f q hf hret x hx
  obtain ⟨r, hr, rfl, hs, hv, hm, _⟩ := Queue.finish_eq_some hf
  obtain ⟨t, ht, hk, hspeaks⟩ := allSpeak pre (admissible_left ha)
    (fun c hc => hd c (by rw [calls_append]; exact List.mem_append_left _ hc)) r hr (hv ▸ hret)
  rw [hs]
  refine ⟨t, ht, hk, (hspeaks x (hm ▸ hx)).resolve_right ?_⟩
  rintro ⟨before, d, behind, rfl, hrunning, _⟩
  have hnone := hcalm before d (behind ++ .finish r.key :: post) (by simp)
  rw [hnone] at hrunning
  exact List.not_mem_nil hrunning

/-! ### Parts that are not spoken of -/

/-- No call among the moves speaks of the part. -/
def Unspoken (scope : Scope) (x : PartId) (es : List Move) : Prop :=
  ∀ c, .call c ∈ es → c.mentions scope x = []

theorem Unspoken.right {others : List Move} (h : Unspoken scope x (es ++ others)) :
    Unspoken scope x others := fun c hc => h c (List.mem_append_right _ hc)

/-- A part that is not spoken of stays where it is. -/
theorem Unspoken.stays (h : Unspoken scope x later) (ha : Admissible (calls (es ++ later)))
    {t : Task} (ht : t ∈ (run es).merger.get scope) (hx : x ∈ t.members) :
    ∃ u ∈ (run (es ++ later)).merger.get scope, x ∈ u.members ∧ u.mergeKey = t.mergeKey := by
  induction later using List.reverseRecOn with
  | nil =>
    rw [List.append_nil]
    exact ⟨t, ht, hx, rfl⟩
  | append_singleton later e ih =>
    rw [← List.append_assoc] at ha ⊢
    obtain ⟨u, hu, hxu, hk⟩ := ih (fun c hc => h c (List.mem_append_left _ hc)) (admissible_left ha)
    rw [run_merger] at hu ⊢
    cases e with
    | call c =>
      rw [calls_call] at ha ⊢
      obtain ⟨v, hv, hxv, hkv⟩ :=
        Merger.member_stays ha.wellFormed (h c (by simp)) hu hxu
      exact ⟨v, hv, hxv, hkv.trans hk⟩
    | claim | finish | reported =>
      simp only [calls_claim, calls_finish, calls_reported]
      exact ⟨u, hu, hxu, hk⟩

/-- A part that was not spoken of has been there all the time. -/
theorem Unspoken.came (h : Unspoken scope x later) (ha : Admissible (calls (es ++ later)))
    {t : Task} (ht : t ∈ (run (es ++ later)).merger.get scope) (hx : x ∈ t.members) :
    ∃ u ∈ (run es).merger.get scope, x ∈ u.members ∧ u.mergeKey = t.mergeKey := by
  induction later using List.reverseRecOn generalizing t with
  | nil =>
    rw [List.append_nil] at ht
    exact ⟨t, ht, hx, rfl⟩
  | append_singleton later e ih =>
    have hunspoken : Unspoken scope x later := fun c hc => h c (List.mem_append_left _ hc)
    rw [← List.append_assoc] at ha ht
    have hbefore := fun {t} => @ih hunspoken (admissible_left ha) t
    rw [run_merger] at ht
    cases e with
    | call c =>
      rw [calls_call] at ha ht
      rcases Merger.member_after ha.wellFormed ht hx with ⟨v, hv, hxv, _⟩ | ⟨_, v, hv, hxv, hkv⟩
      · have hspoken := List.ne_nil_of_mem (Merger.mem_mentions.mpr ⟨hv, hxv⟩)
        exact absurd (h c (by simp)) hspoken
      · obtain ⟨u, hu, hxu, hku⟩ := hbefore (by rw [run_merger]; exact hv) hxv
        exact ⟨u, hu, hxu, hku.trans hkv⟩
    | claim | finish | reported =>
      simp only [calls_claim, calls_finish, calls_reported] at ht
      exact hbefore (by rw [run_merger]; exact ht) hx

/-- A member of a task that was not handed in meanwhile has not been spoken of. -/
theorem unspoken_of_member (ha : Admissible (calls (es ++ later))) {t : Task}
    (ht : t ∈ (run (es ++ later)).merger.get scope) (hx : x ∈ t.members)
    (hquiet : ∀ e ∈ later, ¬ Submits scope (t.key scope) e) : Unspoken scope x later := by
  intro c hc
  obtain ⟨before, behind, rfl⟩ := List.append_of_mem hc
  by_contra hspoken
  -- after the call the part is under another key, and only a call for this key would bring it back
  have hsplit : es ++ (before ++ .call c :: behind) = (es ++ before ++ [.call c]) ++ behind := by simp
  rw [hsplit] at ha ht
  have hout : ∀ u ∈ (run (es ++ before ++ [.call c])).merger.get scope,
      u.key scope = t.key scope → x ∉ u.members := by
    intro u hu hk hxu
    have ha' := admissible_left ha
    rw [run_merger] at hu
    rw [calls_call] at ha' hu
    rcases Merger.member_after ha'.wellFormed hu hxu with ⟨v, hv, _, hkv⟩ | ⟨hnone, _⟩
    · exact hquiet (.call c) (by simp) ⟨v, hv, (Task.key_eq_of_mergeKey hkv scope).trans hk⟩
    · exact hspoken hnone
  have hstay : ∀ moves : List Move, moves ⊆ behind →
      Admissible (calls (es ++ before ++ [.call c] ++ moves)) →
      ∀ u ∈ (run (es ++ before ++ [.call c] ++ moves)).merger.get scope,
        u.key scope = t.key scope → x ∉ u.members := by
    intro moves
    induction moves using List.reverseRecOn with
    | nil =>
      intro _ _
      rw [List.append_nil]
      exact hout
    | append_singleton moves e ih =>
      intro hsub ha'
      rw [← List.append_assoc] at ha' ⊢
      refine not_member_of_not_returns ha'
        (ih (fun d hd => hsub (List.mem_append_left _ hd)) (admissible_left ha')) ?_
      have he : e ∈ before ++ .call c :: behind :=
        List.mem_append_right _ (List.mem_cons_of_mem _ (hsub (by simp)))
      intro hreturns
      cases e with
      | call d =>
        obtain ⟨v, hv, hkv, _⟩ := hreturns
        exact hquiet (.call d) he ⟨v, hv, hkv⟩
      | claim | finish | reported => exact hreturns
  exact hstay behind (List.Subset.refl _) ha t ht rfl hx

/-! ### Keys that are not handed in -/

theorem not_pending_of_quiet (ha : Admissible (calls (es ++ later)))
    (h : k ∉ ((run es).queue.pending.get scope).map (·.key))
    (hquiet : ∀ e ∈ later, ¬ Submits scope k e) :
    k ∉ ((run (es ++ later)).queue.pending.get scope).map (·.key) := by
  induction later using List.reverseRecOn with
  | nil =>
    rw [List.append_nil]
    exact h
  | append_singleton later e ih =>
    rw [← List.append_assoc] at ha ⊢
    have hi := ih (admissible_left ha) fun d hd => hquiet d (List.mem_append_left _ hd)
    cases e with
    | call c =>
      rw [run_call, Queue.pending_applyAll, Queue.foldl_takePending_call, Queue.mem_keys_flush]
      rintro (⟨hp, _⟩ | hnew)
      · exact hi hp
      · rw [calls_call] at ha
        obtain ⟨t, ht, rfl⟩ := List.mem_map.mp hnew
        exact hquiet (.call c) (by simp)
          (Merger.mem_added_callScope.mp ((turn ha scope).mem_renewed.mp ht).2)
    | claim s =>
      rcases run_claim (es ++ later) s with ⟨_, hsame⟩ | ⟨p, _, _, _, hpend, _⟩
      · rw [hsame]
        exact hi
      · rw [hpend]
        by_cases hs : s = scope
        · subst hs
          rw [PerScope.get_modify_self]
          exact fun hk => hi ((List.erase_sublist.map _).subset hk)
        · rw [PerScope.modify, PerScope.get_set_of_ne _ hs]
          exact hi
    | finish j =>
      rw [(run_finish _ j).1]
      exact hi
    | reported =>
      rw [(run_reported _).1]
      exact hi

/-- A build of the key in the scope is running. -/
def Runs (es : List Move) (scope : Scope) (k : TaskKey) : Prop :=
  ∃ r ∈ (run es).queue.running, r.scope = scope ∧ r.key = k

theorem runs_of_snoc (h : Runs (es ++ [e]) scope k) : Runs es scope k ∨
    (e = .claim scope ∧ k ∈ ((run es).queue.pending.get scope).map (·.key)) := by
  obtain ⟨r, hr, hs, hk⟩ := h
  cases e with
  | call c =>
    rw [run_call, Queue.running_applyAll] at hr
    obtain ⟨r₀, hr₀, rfl⟩ := List.mem_map.mp hr
    obtain ⟨hk₀, hs₀, _⟩ := r₀.foldl_take_same ((after (calls es)).call c).2
    exact Or.inl ⟨r₀, hr₀, hs₀ ▸ hs, hk₀ ▸ hk⟩
  | claim s =>
    rcases run_claim es s with ⟨_, hsame⟩ | ⟨p, hp, _, _, _, hrun⟩
    · exact Or.inl ⟨r, hsame ▸ hr, hs, hk⟩
    · rw [hrun] at hr
      rcases List.mem_append.mp hr with hr | hr
      · exact Or.inl ⟨r, hr, hs, hk⟩
      · obtain rfl := List.mem_singleton.mp hr
        obtain rfl : s = scope := hs
        obtain rfl : p.key = k := hk
        exact Or.inr ⟨rfl, List.mem_map_of_mem hp⟩
  | finish j =>
    rw [(run_finish es j).2] at hr
    exact Or.inl ⟨r, List.mem_of_mem_filter hr, hs, hk⟩
  | reported =>
    rw [(run_reported es).2] at hr
    exact Or.inl ⟨r, hr, hs, hk⟩

theorem not_runs_of_quiet (ha : Admissible (calls (es ++ later)))
    (hpend : k ∉ ((run es).queue.pending.get scope).map (·.key)) (hrun : ¬ Runs es scope k)
    (hquiet : ∀ e ∈ later, ¬ Submits scope k e) : ¬ Runs (es ++ later) scope k := by
  induction later using List.reverseRecOn with
  | nil =>
    rw [List.append_nil]
    exact hrun
  | append_singleton later e ih =>
    rw [← List.append_assoc] at ha ⊢
    have hquiet' : ∀ d ∈ later, ¬ Submits scope k d := fun d hd =>
      hquiet d (List.mem_append_left _ hd)
    intro hruns
    rcases runs_of_snoc hruns with hruns | ⟨_, hk⟩
    · exact ih (admissible_left ha) hquiet' hruns
    · exact not_pending_of_quiet (admissible_left ha) hpend hquiet' hk

theorem Runs.until (h : Runs es scope k) (hend : .finish k ∉ later) :
    Runs (es ++ later) scope k := by
  induction later using List.reverseRecOn with
  | nil =>
    rw [List.append_nil]
    exact h
  | append_singleton later e ih =>
    rw [← List.append_assoc]
    obtain ⟨r, hr, hs, hk⟩ := ih fun he => hend (List.mem_append_left _ he)
    cases e with
    | call c =>
      obtain ⟨hk', hs', _⟩ := r.foldl_take_same ((after (calls (es ++ later))).call c).2
      refine ⟨_, ?_, hs'.trans hs, hk'.trans hk⟩
      rw [run_call, Queue.running_applyAll]
      exact List.mem_map_of_mem hr
    | claim s =>
      refine ⟨r, ?_, hs, hk⟩
      rcases run_claim (es ++ later) s with ⟨_, hsame⟩ | ⟨_, _, _, _, _, hrun⟩
      · rw [hsame]
        exact hr
      · rw [hrun]
        exact List.mem_append_left _ hr
    | finish j =>
      refine ⟨r, ?_, hs, hk⟩
      rw [(run_finish _ j).2]
      refine List.mem_filter.mpr ⟨hr, decide_eq_true fun hj => hend ?_⟩
      rw [← hk, hj]
      simp
    | reported =>
      refine ⟨r, ?_, hs, hk⟩
      rw [(run_reported _).2]
      exact hr

theorem runs_of_claim {cl : Claimed} {q : Queue} (h : (run es).queue.claim scope = some (cl, q)) :
    Runs (es ++ [.claim scope]) scope cl.key := by
  rcases run_claim es scope with ⟨hnone, _⟩ | ⟨p, _, _, ⟨q', hq'⟩, _, hrun⟩
  · rw [hnone] at h
    cases h
  · rw [hq'] at h
    obtain ⟨rfl, _⟩ := Prod.mk.inj (Option.some.inj h)
    refine ⟨⟨p.key, scope, p.task.members, false⟩, ?_, rfl, rfl⟩
    rw [hrun]
    exact List.mem_append_right _ (List.mem_singleton_self _)

/-- A key that is being built is not claimed. -/
theorem not_runs_of_claim {s : Scope} {cl : Claimed} {q : Queue}
    (h : (run es).queue.claim s = some (cl, q)) : ¬ Runs es scope cl.key := by
  rintro ⟨r, hr, _, hk⟩
  obtain ⟨p, _, rfl, hfree, _⟩ := Queue.claim_eq_some h
  exact hfree (List.mem_map.mpr ⟨r, hr, hk⟩)

/-- The build of a key that has not ended was claimed at one place. -/
theorem claim_unique {pre mid pre' mid' : List Move} {s s' : Scope} {cl cl' : Claimed}
    {q q' : Queue} (hsame : pre ++ .claim s :: mid = pre' ++ .claim s' :: mid')
    (h : (run pre).queue.claim s = some (cl, q)) (h' : (run pre').queue.claim s' = some (cl', q'))
    (hk : cl'.key = cl.key) (hend : .finish cl.key ∉ mid) (hend' : .finish cl.key ∉ mid') :
    pre = pre' ∧ mid = mid' := by
  -- otherwise one of the two claims came while the other one's build was running
  have hlater : ∀ {pre a : List Move} {s s' : Scope} {cl cl' : Claimed} {q q' : Queue},
      (run pre).queue.claim s = some (cl, q) →
      (run (pre ++ .claim s :: a)).queue.claim s' = some (cl', q') →
      cl'.key = cl.key → .finish cl.key ∉ a → False := by
    intro pre a s s' cl cl' q q' h h' hk hend
    have hruns := (runs_of_claim h).until hend
    rw [List.append_assoc, List.singleton_append, ← hk] at hruns
    exact not_runs_of_claim h' hruns
  rcases List.append_eq_append_iff.mp hsame with ⟨a, rfl, hmid⟩ | ⟨a, rfl, hmid⟩
  · cases a with
    | nil =>
      obtain ⟨_, rfl⟩ := List.cons.inj hmid
      exact ⟨(List.append_nil _).symm, rfl⟩
    | cons e a =>
      obtain ⟨rfl, rfl⟩ := List.cons.inj hmid
      exact (@hlater pre a _ _ _ _ _ _ h h' hk
        fun he => hend (List.mem_append_left _ he)).elim
  · cases a with
    | nil =>
      obtain ⟨_, rfl⟩ := List.cons.inj hmid
      exact ⟨List.append_nil _, rfl⟩
    | cons e a =>
      obtain ⟨rfl, rfl⟩ := List.cons.inj hmid
      exact (@hlater pre' a _ _ _ _ _ _ h' h hk.symm
        fun he => hend' (List.mem_append_left _ (hk ▸ he))).elim

/-- No build ends for the part, unless its result is void. -/
def Silent (scope : Scope) (x : PartId) (es later : List Move) : Prop :=
  ∀ before k behind, later = before ++ .finish k :: behind → ∀ f q,
    (run (es ++ before)).queue.finish k = some (f, q) → f.retracted = false → f.scope = scope →
      x ∉ f.members

/-- If the task of a part is neither pending nor being built, and is not handed in, then no build ends
for the part. -/
theorem silent_of_quiet (ha : Admissible (calls (es ++ later))) (hloyal : Loyal (es ++ later))
    {t : Task} (ht : t ∈ (run (es ++ later)).merger.get scope) (hx : x ∈ t.members)
    (hunspoken : Unspoken scope x later)
    (hpend : t.key scope ∉ ((run es).queue.pending.get scope).map (·.key))
    (hrun : ¬ Runs es scope (t.key scope))
    (hquiet : ∀ e ∈ later, ¬ Submits scope (t.key scope) e) : Silent scope x es later := by
  rintro before k behind rfl f q hf hret rfl hxf
  obtain ⟨t', ht', hk', hx'⟩ := hloyal (es ++ before) k behind (by simp) f q hf hret x hxf
  -- the part is where it was when the build ended
  have hsplit : es ++ (before ++ .finish k :: behind) = (es ++ before) ++ .finish k :: behind := by
    simp
  rw [hsplit] at ha ht
  obtain ⟨u, hu, hxu, hku⟩ := hunspoken.right.stays ha ht' hx'
  have hsame : u = t := by
    rw [run_merger] at hu ht
    exact (sound_after _ ha.wellFormed f.scope).disjoint u hu t ht x hxu hx
  have hk : t.key f.scope = k := by
    rw [← hsame, ← hk']
    exact Task.key_eq_of_mergeKey hku f.scope
  obtain ⟨r, hr, hrk, hrs, _⟩ := Queue.finish_eq_some hf
  refine not_runs_of_quiet (admissible_left ha) hpend hrun
    (fun e he => hquiet e (List.mem_append_left _ he)) ⟨r, hr, hrs.symm, hrk.trans hk.symm⟩

/-! ### The last build -/

/-- The last end of a build that speaks for the part: `claimed` was claimed after `pre`, and the build
ended after `mid` more moves. -/
structure LastBuild (es : List Move) (scope : Scope) (x : PartId) (pre mid post : List Move)
    (claimed : Claimed) (f : Finished) : Prop where
  moves : es = pre ++ .claim scope :: mid ++ .finish claimed.key :: post
  claim : ∃ q, (run pre).queue.claim scope = some (claimed, q)
  unended : .finish claimed.key ∉ mid
  finish : ∃ q, (run (pre ++ .claim scope :: mid)).queue.finish claimed.key = some (f, q)
  inScope : f.scope = scope
  sound : f.retracted = false
  member : x ∈ f.members
  part : x ∈ claimed.task.members
  unspoken : Unspoken scope x (mid ++ post)
  last : Silent scope x (pre ++ .claim scope :: mid ++ [.finish claimed.key]) post

theorem not_pending_of_claim {cl : Claimed} {q : Queue} (hc : Consistent es)
    (h : (run es).queue.claim scope = some (cl, q)) :
    cl.key ∉ ((run (es ++ [.claim scope])).queue.pending.get scope).map (·.key) := by
  rcases run_claim es scope with ⟨hnone, _⟩ | ⟨p, hp, _, ⟨q', hq'⟩, hpend, _⟩
  · rw [hnone] at h
    cases h
  · rw [hq'] at h
    obtain ⟨rfl, _⟩ := Prod.mk.inj (Option.some.inj h)
    rw [hpend, PerScope.get_modify_self]
    intro hk
    obtain ⟨d, hd, hdk⟩ := List.mem_map.mp hk
    have hnodup := (hc.pending scope).nodup
    have hmem := List.mem_of_mem_erase hd
    obtain rfl : d = p := List.inj_on_of_nodup_map hnodup hmem hp hdk
    exact (List.Nodup.of_map _ hnodup).not_mem_erase hd

theorem not_runs_of_finish (es : List Move) (scope : Scope) (k : TaskKey) :
    ¬ Runs (es ++ [.finish k]) scope k := by
  rintro ⟨r, hr, _, hk⟩
  rw [(run_finish es k).2] at hr
  simpa [hk] using (List.mem_filter.mp hr).2

theorem last_of_quiet {pre mid post : List Move} {cl : Claimed} {f : Finished} {q q' : Queue}
    (ha : Admissible (calls (pre ++ .claim scope :: mid ++ .finish cl.key :: post)))
    (hloyal : Loyal (pre ++ .claim scope :: mid ++ .finish cl.key :: post)) {t : Task}
    (ht : t ∈ (run (pre ++ .claim scope :: mid ++ .finish cl.key :: post)).merger.get scope)
    (hx : x ∈ t.members) (hk : t.key scope = cl.key)
    (hlater : ∀ e ∈ mid ++ .finish cl.key :: post, ¬ Submits scope cl.key e)
    (hc : Consistent pre) (hclaim : (run pre).queue.claim scope = some (cl, q))
    (hf : (run (pre ++ .claim scope :: mid)).queue.finish cl.key = some (f, q'))
    (hret : f.retracted = false) (hxf : x ∈ f.members) :
    f.scope = scope ∧ x ∈ cl.task.members ∧ Unspoken scope x (mid ++ .finish cl.key :: post) ∧
      Silent scope x (pre ++ .claim scope :: mid ++ [.finish cl.key]) post := by
  have hmoves : pre ++ .claim scope :: mid ++ .finish cl.key :: post =
      (pre ++ [.claim scope]) ++ (mid ++ .finish cl.key :: post) := by simp
  have hmoves' : pre ++ .claim scope :: mid ++ .finish cl.key :: post =
      (pre ++ .claim scope :: mid ++ [.finish cl.key]) ++ post := by simp
  have hunspoken : Unspoken scope x (mid ++ .finish cl.key :: post) := by
    rw [hmoves] at ha ht
    refine unspoken_of_member ha ht hx ?_
    rw [hk]
    exact hlater
  refine ⟨?_, ?_, hunspoken, ?_⟩
  · -- the task of the key is in one scope only
    obtain ⟨u, hu, huk, _⟩ := hloyal _ _ _ rfl f q' hf hret x hxf
    rw [run_merger] at hu ht
    have hin := names_of_after (admissible_left ha).wellFormed hu
    rw [calls_append] at ha ht
    exact (ha.key_inj (hin.mono (List.subset_append_left _ _))
      (names_of_after ha.wellFormed ht) (huk.trans hk.symm)).1
  · -- the part was under the key when it was claimed
    rw [hmoves] at ha ht
    obtain ⟨u, hu, hxu, hku⟩ := hunspoken.came ha ht hx
    have hbefore := admissible_left (admissible_left ha)
    rw [run_merger, calls_claim] at hu
    obtain ⟨p, hp, rfl, _⟩ := Queue.claim_eq_some hclaim
    obtain ⟨hmem, hkey⟩ := hc.merged hbefore hp
    have hsame := (hbefore.key_inj (names_of_after hbefore.wellFormed hu)
      (names_of_after hbefore.wellFormed hmem)
      ((Task.key_eq_of_mergeKey hku scope).trans (hk.trans hkey.symm))).2
    have hu' : u = p.task :=
      Merger.eq_of_mergeKey (sound_after _ hbefore.wellFormed scope).keys hu hmem hsame
    exact hu' ▸ hxu
  · have hpend := not_pending_of_claim hc hclaim
    rw [hmoves'] at ha hloyal ht
    refine silent_of_quiet ha hloyal ht hx
      (fun c hc => hunspoken c (List.mem_append_right _ (List.mem_cons_of_mem _ hc))) ?_
      ?_ fun e he => ?_
    · have hmid : pre ++ .claim scope :: mid ++ [.finish cl.key] =
          (pre ++ [.claim scope]) ++ (mid ++ [.finish cl.key]) := by simp
      have ha' := admissible_left ha
      rw [hmid] at ha' ⊢
      rw [hk]
      refine not_pending_of_quiet ha' hpend fun e he => hlater e ?_
      rcases List.mem_append.mp he with he | he
      · exact List.mem_append_left _ he
      · exact List.mem_append_right _ (List.mem_singleton.mp he ▸ List.mem_cons_self)
    · rw [hk]
      exact not_runs_of_finish _ _ _
    · rw [hk]
      exact hlater e (List.mem_append_right _ (List.mem_cons_of_mem _ he))

/-- When the queue is empty, the last build for a member of a task is that of the task, claimed when
the part had been spoken of for the last time. -/
theorem exists_lastBuild (ha : Admissible (calls es)) (hloyal : Loyal es)
    (hpend : ∀ s, (run es).queue.pending.get s = []) (hrun : (run es).queue.running = [])
    {t : Task} (ht : t ∈ (run es).merger.get scope) (hx : x ∈ t.members) :
    ∃ pre mid post claimed f, LastBuild es scope x pre mid post claimed f := by
  have ht' := ht
  rw [run_merger] at ht'
  rcases served es ha scope t ht' with hw | hb | ⟨pre, mid, post, hes,
    ⟨⟨task, q, hclaim, _, _⟩, hquiet, hend⟩, hpost, f, q', hf, hret, hm⟩
  · rw [IsPending, hpend scope] at hw
    exact absurd hw List.not_mem_nil
  · have hr := hb.1
    rw [hrun] at hr
    exact absurd hr List.not_mem_nil
  · obtain ⟨k, hk⟩ : ∃ k, t.key scope = k := ⟨_, rfl⟩
    rw [hk] at hes hclaim hquiet hend hpost hf
    subst hes
    have hlater : ∀ e ∈ mid ++ .finish k :: post, ¬ Submits scope k e := by
      intro e he
      rcases List.mem_append.mp he with he | he
      · exact hquiet e he
      · rcases List.mem_cons.mp he with rfl | he
        · exact id
        · exact hpost e he
    have hbefore := consistent pre (by
      rw [List.append_assoc] at ha
      exact admissible_left ha)
    obtain ⟨hscope, hpart, hunspoken, hlast⟩ := last_of_quiet ha hloyal ht hx hk hlater hbefore hclaim hf
      hret (hm hx)
    refine ⟨pre, mid, post, _, f, rfl, ⟨q, hclaim⟩, hend, ⟨q', hf⟩, hscope, hret, hm hx,
      hpart, fun c hc => hunspoken c ?_, hlast⟩
    rcases List.mem_append.mp hc with hc | hc
    · exact List.mem_append_left _ hc
    · exact List.mem_append_right _ (List.mem_cons_of_mem _ hc)

end Workflow
end PrecompiledHeaders
