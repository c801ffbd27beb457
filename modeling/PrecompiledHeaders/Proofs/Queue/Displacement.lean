import PrecompiledHeaders.Proofs.Headers
import PrecompiledHeaders.Proofs.Queue.Completion
import Mathlib.Data.List.Pairwise
/-! For whom an ended build speaks. Members of a running entry follow the merged task through
updates, and an update is told for all keys that lose members, except those that the same call
hands in again: these are only added, and adding leaves a running entry alone. A part that such a
call moves to another key stays with the build that runs. That is the one way in which an ended
build speaks for a part that is no longer a member. -/
namespace PrecompiledHeaders

open Merger (after names_of_after mirrors_replayed turn notes latest sound_after reflects_after
  mem_mentions headerTask headerTasks admissible_headers headerTask_key_ne)

/-! ### One part over a call -/

namespace Merger

variable {calls : List MergerCall} {c : MergerCall} {scope : Scope} {p : PartId}

/-- A member of a task came with this call, or was one before and is not mentioned now. -/
theorem member_after (hw : ∀ d ∈ calls ++ [c], d.WellFormed) {t : Task}
    (ht : t ∈ (after (calls ++ [c])).get scope) (hp : p ∈ t.members) :
    (∃ u ∈ c.submitted scope, p ∈ u.members ∧ u.mergeKey = t.mergeKey) ∨
    (c.mentions scope p = [] ∧ ∃ t₀ ∈ (after calls).get scope, p ∈ t₀.members ∧
      t₀.mergeKey = t.mergeKey) := by
  obtain ⟨u, hu, hk, _⟩ := (reflects_after _ hw scope).owner ht hp
  by_cases hm : c.mentions scope p = []
  · rw [latest_append_of_quiet hm] at hu
    have hr := reflects_after calls (fun d hd => hw d (List.mem_append_left _ hd)) scope
    obtain ⟨t₀, ht₀, hp₀, hk₀, _⟩ := hr.placed p u hu
    exact Or.inr ⟨hm, t₀, ht₀, hp₀, hk₀.trans hk.symm⟩
  · rw [latest_append_of_mentioned hm] at hu
    have hmem := List.mem_of_getLast? (Option.join_eq_some_iff.mp hu)
    obtain ⟨hs, hpu⟩ := mem_mentions.mp hmem
    exact Or.inl ⟨u, hs, hpu, hk.symm⟩

/-- A member that is not mentioned stays. -/
theorem member_stays (hw : ∀ d ∈ calls ++ [c], d.WellFormed) (hm : c.mentions scope p = [])
    {t₀ : Task} (ht₀ : t₀ ∈ (after calls).get scope) (hp : p ∈ t₀.members) :
    ∃ t ∈ (after (calls ++ [c])).get scope, p ∈ t.members ∧ t.mergeKey = t₀.mergeKey := by
  have hr := reflects_after calls (fun d hd => hw d (List.mem_append_left _ hd)) scope
  obtain ⟨u, hu, hk, _⟩ := hr.owner ht₀ hp
  rw [← latest_append_of_quiet hm] at hu
  obtain ⟨t, ht, hpt, hkt, _⟩ := (reflects_after _ hw scope).placed p u hu
  exact ⟨t, ht, hpt, hkt.trans hk.symm⟩

theorem submitted_unique (hd : c.Separate) {t u : Task} (ht : t ∈ c.submitted scope)
    (hu : u ∈ c.submitted scope) (hpt : p ∈ t.members) (hpu : p ∈ u.members) : t = u := by
  by_contra hne
  obtain ⟨_, hpair⟩ := List.nodup_flatMap.mp (hd scope)
  have hsym : Std.Symm (Function.onFun List.Disjoint Task.members) :=
    ⟨fun _ _ h _ ha hb => h hb ha⟩
  exact hpair.forall ht hu hne hpt hpu

/-- A part is a member where it was handed in. -/
theorem member_of_submitted (hw : ∀ d ∈ calls ++ [c], d.WellFormed) (hd : c.Separate) {u : Task}
    (hu : u ∈ c.submitted scope) (hp : p ∈ u.members) :
    ∃ t ∈ (after (calls ++ [c])).get scope, p ∈ t.members ∧ t.mergeKey = u.mergeKey := by
  have hmem : some u ∈ c.mentions scope p := mem_mentions.mpr ⟨hu, hp⟩
  have hne := List.ne_nil_of_mem hmem
  have hlast : (c.mentions scope p).getLast? = some (some u) := by
    rw [List.getLast?_eq_some_getLast hne]
    have hin := List.getLast_mem hne
    cases hg : (c.mentions scope p).getLast hne with
    | none =>
      rw [hg] at hin
      cases c with
      | merge sets extra => simp [MergerCall.mentions] at hin
      | remove ids => exact absurd hu List.not_mem_nil
    | some v =>
      rw [hg] at hin
      obtain ⟨hv, hpv⟩ := mem_mentions.mp hin
      rw [submitted_unique hd hv hu hpv hp]
  have hl : latest scope p (calls ++ [c]) = some u := by
    rw [latest_append_of_mentioned hne, hlast]
    rfl
  obtain ⟨t, ht, hpt, hk, _⟩ := (reflects_after _ hw scope).placed p u hl
  exact ⟨t, ht, hpt, hk⟩

/-- Where keys do not collide, a part handed in under the key of a task is a member of it. -/
theorem member_of_submitted_key (ha : Admissible (calls ++ [c])) (hd : c.Separate) {u t : Task}
    (hu : u ∈ c.submitted scope) (ht : t ∈ (after (calls ++ [c])).get scope)
    (hk : u.key scope = t.key scope) (hp : p ∈ u.members) : p ∈ t.members := by
  obtain ⟨v, hv, hpv, hkv⟩ := member_of_submitted ha.wellFormed hd hu hp
  have he : v.key scope = t.key scope := (Task.key_eq_of_mergeKey hkv scope).trans hk
  exact (turn ha scope).eq_now hv ht he ▸ hpv

end Merger

/-! ### Displaced parts -/

namespace Workflow

/-- The move hands in the part under this key. -/
def Returns (scope : Scope) (k : TaskKey) (p : PartId) : Move → Prop
  | .call c => ∃ u ∈ c.submitted scope, u.key scope = k ∧ p ∈ u.members
  | _ => False

/-- While the key was running, one call handed it in again and moved the part from it to another
key, and the part has not come back since. -/
def Displaced (es : List Move) (scope : Scope) (k : TaskKey) (p : PartId) : Prop :=
  ∃ pre c post, es = pre ++ .call c :: post ∧
    k ∈ (run pre).queue.running.map (·.key) ∧ .finish k ∉ post ∧
    (∃ t ∈ (run pre).merger.get scope, t.key scope = k ∧ p ∈ t.members) ∧
    Submits scope k (.call c) ∧ (∃ u ∈ c.submitted scope, u.key scope ≠ k ∧ p ∈ u.members) ∧
    ∀ e ∈ post, ¬ Returns scope k p e

variable {es : List Move} {scope : Scope} {k : TaskKey} {p : PartId} {e : Move}

theorem Displaced.snoc (h : Displaced es scope k p) (hf : e ≠ .finish k)
    (hr : ¬ Returns scope k p e) : Displaced (es ++ [e]) scope k p := by
  obtain ⟨pre, c, post, rfl, hrun, hend, hwas, hsub, hoff, hpost⟩ := h
  refine ⟨pre, c, post ++ [e], by simp, hrun, fun hm => ?_, hwas, hsub, hoff, fun d hd => ?_⟩
  · rcases List.mem_append.mp hm with hm | hm
    · exact hend hm
    · exact hf (List.mem_singleton.mp hm).symm
  · rcases List.mem_append.mp hd with hd | hd
    · exact hpost d hd
    · exact List.mem_singleton.mp hd ▸ hr

/-- A part that is no member of a key's task becomes one by being handed in for it only. -/
theorem not_member_of_not_returns (ha : Admissible (calls (es ++ [e])))
    (h : ∀ t ∈ (run es).merger.get scope, t.key scope = k → p ∉ t.members)
    (hr : ¬ Returns scope k p e) :
    ∀ t ∈ (run (es ++ [e])).merger.get scope, t.key scope = k → p ∉ t.members := by
  intro t ht hk hp
  rw [run_merger] at ht
  cases e with
  | call c =>
    rw [calls_call] at ht ha
    rcases Merger.member_after ha.wellFormed ht hp with ⟨u, hu, hpu, hku⟩ | ⟨_, t₀, ht₀, hp₀, hk₀⟩
    · exact hr ⟨u, hu, (Task.key_eq_of_mergeKey hku scope).trans hk, hpu⟩
    · rw [← run_merger] at ht₀
      exact h t₀ ht₀ ((Task.key_eq_of_mergeKey hk₀ scope).trans hk) hp₀
  | claim s =>
    rw [calls_claim, ← run_merger] at ht
    exact h t ht hk hp
  | finish j =>
    rw [calls_finish, ← run_merger] at ht
    exact h t ht hk hp
  | reported =>
    rw [calls_reported, ← run_merger] at ht
    exact h t ht hk hp

theorem Displaced.not_member (h : Displaced es scope k p) (ha : Admissible (calls es))
    (hd : ∀ c ∈ calls es, c.Separate) :
    ∀ t ∈ (run es).merger.get scope, t.key scope = k → p ∉ t.members := by
  obtain ⟨pre, c, post, rfl, _, hend, _, _, ⟨u, hu, hku, hpu⟩, hpost⟩ := h
  induction post using List.reverseRecOn with
  | nil =>
    intro t ht hk hp
    rw [run_merger, calls_call] at ht
    rw [calls_call] at ha
    rcases Merger.member_after ha.wellFormed ht hp with ⟨v, hv, hpv, hkv⟩ | ⟨hm, _⟩
    · have hsep : c.Separate := hd c (by simp)
      obtain rfl := Merger.submitted_unique hsep hu hv hpu hpv
      exact hku ((Task.key_eq_of_mergeKey hkv scope).trans hk)
    · exact List.ne_nil_of_mem (mem_mentions.mpr ⟨hu, hpu⟩) hm
  | append_singleton post e ih =>
    have hes : pre ++ .call c :: (post ++ [e]) = (pre ++ .call c :: post) ++ [e] := by simp
    rw [hes] at ha hd ⊢
    have hsep : ∀ d ∈ calls (pre ++ .call c :: post), d.Separate := fun d hm =>
      hd d (by rw [calls_append]; exact List.mem_append_left _ hm)
    exact not_member_of_not_returns ha
      (ih (admissible_init ha) hsep (fun hm => hend (List.mem_append_left _ hm))
        fun d hm => hpost d (List.mem_append_left _ hm))
      (hpost e (by simp))

/-! ### What a running entry says of its members -/

/-- The task of a running entry is merged, and each member of the entry is a member still, or
displaced. -/
def Speaks (es : List Move) (r : Running) : Prop :=
  ∃ t ∈ (run es).merger.get r.scope, t.key r.scope = r.key ∧
    ∀ p ∈ r.members, p ∈ t.members ∨ Displaced es r.scope r.key p

/-- A running entry that was not retracted speaks for its key. -/
def AllSpeak (es : List Move) : Prop :=
  ∀ r ∈ (run es).queue.running, r.retracted = false → Speaks es r

theorem Speaks.snoc {r : Running} (h : Speaks es r)
    (hm : (run (es ++ [e])).merger = (run es).merger) (hf : e ≠ .finish r.key)
    (hr : ∀ p, ¬ Returns r.scope r.key p e) : Speaks (es ++ [e]) r := by
  obtain ⟨t, ht, hk, hp⟩ := h
  refine ⟨t, hm ▸ ht, hk, fun p hpr => ?_⟩
  exact (hp p hpr).imp_right fun hd => hd.snoc hf (hr p)

/-- A member that a call takes off a key it hands in again is displaced by it. -/
theorem displaced_of_moved {c : MergerCall} (ha : Admissible (calls es ++ [c])) (hd : c.Separate)
    {r : Running} (hr : r ∈ (run es).queue.running) {t₀ t : Task}
    (ht₀ : t₀ ∈ (after (calls es)).get r.scope) (hk₀ : t₀.key r.scope = r.key)
    (ht : t ∈ (after (calls es ++ [c])).get r.scope) (hk : t.key r.scope = r.key)
    (hsub : Submits r.scope r.key (.call c)) (hp₀ : p ∈ t₀.members) (hp : p ∉ t.members) :
    Displaced (es ++ [.call c]) r.scope r.key p := by
  have hturn := turn ha r.scope
  have hquiet : c.mentions r.scope p ≠ [] := by
    intro hm
    obtain ⟨v, hv, hpv, hkv⟩ := Merger.member_stays ha.wellFormed hm ht₀ hp₀
    have he : v.key r.scope = t.key r.scope :=
      (Task.key_eq_of_mergeKey hkv r.scope).trans (hk₀.trans hk.symm)
    exact hp (hturn.eq_now hv ht he ▸ hpv)
  have hin : ∃ u ∈ c.submitted r.scope, p ∈ u.members := by
    cases c with
    | merge sets extra =>
      obtain ⟨m, hm⟩ := List.exists_mem_of_ne_nil _ hquiet
      obtain ⟨u, hu, _⟩ := List.mem_map.mp hm
      exact ⟨u, (List.mem_filter.mp hu).1, by simpa using (List.mem_filter.mp hu).2⟩
    | remove ids =>
      obtain ⟨u, hu, _⟩ := hsub
      exact absurd hu List.not_mem_nil
  obtain ⟨u, hu, hpu⟩ := hin
  have hoff : u.key r.scope ≠ r.key := fun hku =>
    hp (Merger.member_of_submitted_key ha hd hu ht (hku.trans hk.symm) hpu)
  refine ⟨es, c, [], rfl, List.mem_map_of_mem hr, List.not_mem_nil, ?_, hsub, ⟨u, hu, hoff, hpu⟩,
    fun d hd => absurd hd List.not_mem_nil⟩
  rw [run_merger]
  exact ⟨t₀, ht₀, hk₀, hp₀⟩

theorem Speaks.call {c : MergerCall} (ha : Admissible (calls es ++ [c])) (hd : c.Separate)
    (hc : Consistent es) {r : Running} (hr : r ∈ (run es).queue.running) (h : Speaks es r)
    (hret : (((after (calls es)).call c).2.foldl Running.take r).retracted = false) :
    Speaks (es ++ [.call c]) (((after (calls es)).call c).2.foldl Running.take r) := by
  have hturn := turn ha r.scope
  obtain ⟨t₀, ht₀, hk₀, hm₀⟩ := h
  rw [run_merger] at ht₀
  rw [running_call hc ha hr] at hret ⊢
  obtain ⟨t, ht, hk⟩ : ∃ t ∈ (after (calls es ++ [c])).get r.scope, t.key r.scope = r.key := by
    by_contra hgone
    push Not at hgone
    rw [← hk₀] at hgone
    have hvoid := Running.foldl_take_of_gone hturn ht₀ hk₀.symm hgone
    rw [hvoid] at hret
    cases hret
  have hmerger : (run (es ++ [.call c])).merger = after (calls es ++ [c]) := by
    rw [run_merger, calls_call]
  -- a displaced member stays so, unless this call hands it in for the key again
  have hlift : ∀ p, p ∉ t.members → Displaced es r.scope r.key p →
      Displaced (es ++ [.call c]) r.scope r.key p := by
    intro p hp hdis
    refine hdis.snoc (fun hf => Move.noConfusion hf) ?_
    rintro ⟨u, hu, hku, hpu⟩
    exact hp (Merger.member_of_submitted_key ha hd hu ht (hku.trans hk.symm) hpu)
  rcases hturn.cases ht with ⟨hadd, _⟩ | ⟨hadd, t₁, ht₁, heq, _, hres | ⟨hres, hsame⟩⟩
  · have hsub : Submits r.scope r.key (.call c) := by
      rw [← hk]
      exact Merger.mem_added_callScope.mp hadd
    rw [Running.foldl_take_of_not_resized ht hk.symm (hturn.not_resized hadd)]
    refine ⟨t, hmerger ▸ ht, hk, fun p hp => ?_⟩
    by_cases hpt : p ∈ t.members
    · exact Or.inl hpt
    · exact Or.inr ((hm₀ p hp).elim
        (fun hp₀ => displaced_of_moved ha hd hr ht₀ hk₀ ht hk hsub hp₀ hpt) (hlift p hpt))
  · rw [Running.foldl_take_of_resized hturn hres hk.symm]
    exact ⟨t, hmerger ▸ ht, hk, fun p hp => Or.inl hp⟩
  · rw [Running.foldl_take_of_not_resized ht hk.symm hres]
    have he : t = t₀ := hturn.eq_was (hsame ▸ ht₁) ht₀ (hk.trans hk₀.symm)
    refine ⟨t, hmerger ▸ ht, hk, fun p hp => ?_⟩
    by_cases hpt : p ∈ t.members
    · exact Or.inl hpt
    · exact Or.inr ((hm₀ p hp).elim (fun hp₀ => absurd (he ▸ hp₀) hpt) (hlift p hpt))

theorem AllSpeak.call {c : MergerCall} (h : AllSpeak es) (ha : Admissible (calls es ++ [c]))
    (hd : c.Separate) (hc : Consistent es) : AllSpeak (es ++ [.call c]) := by
  intro r' hr' hret
  rw [run_call, Queue.running_applyAll] at hr'
  obtain ⟨r, hr, rfl⟩ := List.mem_map.mp hr'
  exact (h r hr ((r.foldl_take_same _).2.2 hret)).call ha hd hc hr hret

theorem AllSpeak.claim (h : AllSpeak es) (hc : Consistent es) (ha : Admissible (calls es))
    (s : Scope) : AllSpeak (es ++ [.claim s]) := by
  have hmerger : (run (es ++ [.claim s])).merger = (run es).merger := by
    rw [run_merger, run_merger, calls_claim]
  have hold : ∀ r ∈ (run es).queue.running, r.retracted = false → Speaks (es ++ [.claim s]) r :=
    fun r hr hret => (h r hr hret).snoc hmerger (fun hf => Move.noConfusion hf) fun p => id
  intro r hr hret
  rcases run_claim es s with ⟨_, hsame⟩ | ⟨e, he, _, _, _, hrun⟩
  · exact hold r (hsame ▸ hr) hret
  · rw [hrun] at hr
    rcases List.mem_append.mp hr with hr | hr
    · exact hold r hr hret
    · obtain rfl := List.mem_singleton.mp hr
      obtain ⟨hmem, hkey⟩ := hc.merged ha he
      refine ⟨e.task, ?_, hkey, fun p hp => Or.inl hp⟩
      rw [hmerger, run_merger]
      exact hmem

theorem AllSpeak.finish (h : AllSpeak es) (k : TaskKey) : AllSpeak (es ++ [.finish k]) := by
  intro r hr hret
  rw [(run_finish es k).2] at hr
  obtain ⟨hr, hk⟩ := List.mem_filter.mp hr
  refine (h r hr hret).snoc ?_ (fun hf => ?_) fun p => id
  · rw [run_merger, run_merger, calls_finish]
  · exact absurd (Move.finish.inj hf).symm (by simpa using hk)

theorem AllSpeak.reported (h : AllSpeak es) : AllSpeak (es ++ [.reported]) := by
  intro r hr hret
  rw [(run_reported es).2] at hr
  refine (h r hr hret).snoc ?_ (fun hf => Move.noConfusion hf) fun p => id
  rw [run_merger, run_merger, calls_reported]

theorem allSpeak (es : List Move) (h : Admissible (calls es)) (hd : ∀ c ∈ calls es, c.Separate) :
    AllSpeak es := by
  induction es using List.reverseRecOn with
  | nil => intro r hr; exact absurd hr List.not_mem_nil
  | append_singleton es e ih =>
    have ha := admissible_init h
    have hi := ih ha fun c hc => hd c (by rw [calls_append]; exact List.mem_append_left _ hc)
    have hc := consistent es ha
    cases e with
    | call c => exact hi.call (calls_call es c ▸ h) (hd c (by simp)) hc
    | claim s => exact hi.claim hc ha s
    | finish k => exact hi.finish k
    | reported => exact hi.reported

/-- A build that ends without being void speaks for the merged task of its key: of the parts it
names those are members that were not displaced, and only headers of members and of displaced parts
change when its outcome is recorded. -/
theorem finished_members (es : List Move) (h : Admissible (calls es))
    (hd : ∀ c ∈ calls es, c.Separate) (k : TaskKey) (f : Finished) (q : Queue)
    (hf : (run es).queue.finish k = some (f, q)) (hret : f.retracted = false) :
    ∃ t ∈ (run es).merger.get f.scope, t.key f.scope = k ∧
      (∀ p ∈ f.members, p ∈ t.members ↔ ¬ Displaced es f.scope k p) ∧
      ∀ {W : Type} [World W] (store : ArtifactStore) (w : W) (outcome : Outcome),
        (∃ result, Build.record store w f.scope f.members outcome = (result, store, w)) ∨
        ∃ x y, store.index w = .ok x ∧
          Build.record store w f.scope f.members outcome = store.replace w y ∧
          ∀ p s, y.header? p s ≠ x.header? p s →
            s = f.scope ∧ (p ∈ t.members ∨ Displaced es f.scope k p) := by
  obtain ⟨r, hr, rfl, hs, hv, hm, _, _⟩ := Queue.finish_eq_some hf
  rw [hs, hm]
  obtain ⟨t, ht, hk, hp⟩ := allSpeak es h hd r hr (hv ▸ hret)
  refine ⟨t, ht, hk, fun p hpr => ⟨fun hpt hdis => ?_, fun hdis => ?_⟩,
    fun store w outcome => ?_⟩
  · exact hdis.not_member h hd t ht hk hpt
  · exact (hp p hpr).resolve_right hdis
  · refine (Build.record_headers store w r.scope r.members outcome).imp_right ?_
    rintro ⟨x, y, hx, hy, hsame⟩
    refine ⟨x, y, hx, hy, fun p s hne => ?_⟩
    have hnamed : p ∈ r.members ∧ r.scope = s := by
      by_contra hn
      exact hne (hsame p s fun hpr he => hn ⟨hpr, he⟩)
    exact ⟨hnamed.2.symm, hp p hnamed.1⟩

/-- Two parts share a header, and it is being built. -/
def shared : List Move :=
  [.call (.merge [headerTasks ["a"] 1, headerTasks ["b"] 1] []), .claim .system]

/-- The first part moves to another header, the second one is handed in once more. -/
def parting : MergerCall := .merge [headerTasks ["a"] 2, headerTasks ["b"] 1] []

theorem calls_parted : calls (shared ++ [.call parting]) =
    [.merge [headerTasks ["a"] 1, headerTasks ["b"] 1] [], parting] := rfl

theorem admissible_parted : Admissible (calls (shared ++ [.call parting])) := by
  rw [calls_parted]
  exact admissible_headers (by decide) (by decide)

theorem running_shared : (run shared).queue.running =
    [⟨(headerTask ["a"] 1).key .system, .system, ["a", "b"], false⟩] := by
  have hmembers : (Merger.absorb (headerTasks ["a"] 1).system
      (headerTasks ["b"] 1).system).members = ["a", "b"] := by decide
  have hrun := claim_pair (x := headerTasks ["a"] 1) (y := headerTasks ["b"] 1)
    (fun scope => by cases scope <;> rfl) (by decide)
  rw [hmembers] at hrun
  rw [shared, hrun]
  rfl

/-- The entry of the first header still names both parts. -/
theorem running_parted : (run (shared ++ [.call parting])).queue.running =
    [⟨(headerTask ["a"] 1).key .system, .system, ["a", "b"], false⟩] := by
  have ha := admissible_parted
  have hkey : (headerTask ["a"] 1).key .system = (headerTask ["b"] 1).key .system :=
    Task.key_eq_of_mergeKey rfl .system
  have hc := consistent shared (admissible_init ha)
  have hnow : headerTask ["b"] 1 ∈ (after (calls shared ++ [parting])).get .system := by
    rw [← calls_call, calls_parted]
    decide
  rw [calls_call] at ha
  have hadd : (headerTask ["b"] 1).key .system ∈ (notes (calls shared) parting .system).added :=
    Merger.mem_added_callScope.mpr ⟨headerTask ["b"] 1, by decide, rfl⟩
  have hr : ⟨(headerTask ["a"] 1).key .system, .system, ["a", "b"], false⟩ ∈
      (run shared).queue.running := by
    rw [running_shared]
    exact List.mem_singleton_self _
  rw [run_call, Queue.running_applyAll, running_shared, List.map_singleton, running_call hc ha hr,
    Running.foldl_take_of_not_resized
      (r := ⟨(headerTask ["a"] 1).key .system, .system, ["a", "b"], false⟩) hnow hkey
      ((turn ha .system).not_resized hadd)]

theorem finished_members_parted : Admissible (calls (shared ++ [.call parting])) ∧
    (∀ c ∈ calls (shared ++ [.call parting]), c.Separate) ∧
    ∃ f q, (run (shared ++ [.call parting])).queue.finish ((headerTask ["a"] 1).key .system) =
        some (f, q) ∧ f.retracted = false ∧ f.members = ["a", "b"] ∧
      Displaced (shared ++ [.call parting]) .system ((headerTask ["a"] 1).key .system) "a" ∧
      ¬ Displaced (shared ++ [.call parting]) .system ((headerTask ["a"] 1).key .system) "b" := by
  have ha := admissible_parted
  have hd : ∀ c ∈ calls (shared ++ [.call parting]), c.Separate := by decide
  have hrun := running_parted
  have hr : ⟨(headerTask ["a"] 1).key .system, .system, ["a", "b"], false⟩ ∈
      (run (shared ++ [.call parting])).queue.running := by
    rw [hrun]
    exact List.mem_singleton_self _
  obtain ⟨f, q, hf⟩ := Queue.finish_of_mem hr
  obtain ⟨r, hr', _, hscope, hret, hmem, _, _⟩ := Queue.finish_eq_some hf
  rw [hrun] at hr'
  obtain rfl := List.mem_singleton.mp hr'
  obtain ⟨t, ht, hk, hiff, _⟩ := finished_members _ ha hd _ f q hf hret
  have hnow : (after (calls (shared ++ [.call parting]))).get .system =
      [headerTask ["b"] 1, headerTask ["a"] 2] := by decide
  rw [hscope] at ht hk hiff
  rw [hmem] at hiff
  rw [run_merger, hnow] at ht
  have htask : t = headerTask ["b"] 1 := by
    rcases List.mem_cons.mp ht with he | he
    · exact he
    · rw [List.mem_singleton.mp he] at hk
      exact absurd hk.symm (headerTask_key_ne _ _)
  subst htask
  refine ⟨ha, hd, f, q, hf, hret, hmem, ?_, ?_⟩
  · by_contra hn
    exact absurd ((hiff "a" (by decide)).mpr hn) (by decide)
  · exact (hiff "b" (by decide)).mp (by decide)

end Workflow
end PrecompiledHeaders
