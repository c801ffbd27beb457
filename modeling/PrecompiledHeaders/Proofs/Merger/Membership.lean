import PrecompiledHeaders.Merger
import Mathlib.Data.List.Nodup
import Mathlib.Data.Fintype.Basic
/-! Who belongs to which merged task. A call is taken apart into two moves on the tasks of one
scope: parts leave tasks, and a task joins. After any calls a part is a member of exactly one task
if it was handed in last and not removed since, and of none otherwise. -/
namespace PrecompiledHeaders

instance : Fintype Scope := ⟨{.system, .project}, fun s => by cases s <;> decide⟩

inductive MergerCall where
  | merge (sets : List TaskSet) (extra : List String)
  | remove (ids : List PartId)
  deriving DecidableEq, Repr

namespace MergerCall

/-- The tasks a call hands in for one scope, the extra arguments included. -/
def submitted (scope : Scope) : MergerCall → List Task
  | .merge sets extra => sets.map fun set => Merger.withExtra extra (set.get scope)
  | .remove _ => []

/-- Every task handed in has members, each of them once. -/
def WellFormed (c : MergerCall) : Prop :=
  ∀ scope, ∀ t ∈ c.submitted scope, t.members ≠ [] ∧ t.members.Nodup

instance (c : MergerCall) : Decidable c.WellFormed :=
  inferInstanceAs (Decidable (∀ _, ∀ _ ∈ _, _))

/-- No part is handed in twice for one scope. -/
def Separate (c : MergerCall) : Prop := ∀ scope, ((c.submitted scope).flatMap Task.members).Nodup

instance (c : MergerCall) : Decidable c.Separate :=
  inferInstanceAs (Decidable (∀ _, List.Nodup _))

/-- What a call says about a part, in order: the tasks it is handed in with, or that it is gone. -/
def mentions (scope : Scope) (p : PartId) : MergerCall → List (Option Task)
  | .merge sets extra =>
    (((MergerCall.merge sets extra).submitted scope).filter (p ∈ ·.members)).map some
  | .remove ids => if p ∈ ids then [none] else []

end MergerCall

theorem Task.nodup_appendNew [DecidableEq α] {xs ys : List α} (h : xs.Nodup) :
    (Task.appendNew xs ys).Nodup := by
  induction ys generalizing xs with
  | nil => exact h
  | cons y ys ih =>
    by_cases hy : y ∈ xs
    · simpa [Task.appendNew, hy] using ih h
    · simpa [Task.appendNew, hy] using ih (List.nodup_append.mpr ⟨h, by simp, by
        rintro a ha b hb rfl
        exact hy (List.mem_singleton.mp hb ▸ ha)⟩)

namespace Merger

def call (m : Merger) : MergerCall → Merger × List Dispatch
  | .merge sets extra => m.merge sets extra
  | .remove ids => m.remove ids

/-- The merger after these calls, begun with nothing. -/
def after (calls : List MergerCall) : Merger := calls.foldl (fun m c => (m.call c).1) .empty

/-- The task a part was handed in with last, unless it was removed since. -/
def latest (scope : Scope) (p : PartId) (calls : List MergerCall) : Option Task :=
  ((calls.flatMap (MergerCall.mentions scope p)).getLast?).join

/-- The merge key under which a part is kept. -/
def keyOf? (ts : List Task) (p : PartId) : Option MergeKey :=
  (ts.find? (p ∈ ·.members)).map Task.mergeKey

theorem after_append (calls : List MergerCall) (c : MergerCall) :
    after (calls ++ [c]) = ((after calls).call c).1 := by
  simp [after]

/-! ### One scope at a time -/

/-- A call on the tasks of one scope. -/
def callScope (scope : Scope) (ts : List Task) : MergerCall → List Task × Changes
  | .merge sets extra => mergeAll scope extra sets ts .none
  | .remove ids =>
    (dropEmpty (detach scope ids (fun _ => true) ts .none).1,
      (detach scope ids (fun _ => true) ts .none).2)

theorem call_get (m : Merger) (c : MergerCall) (scope : Scope) :
    (m.call c).1.get scope = (callScope scope (m.get scope) c).1 := by
  cases c <;> cases scope <;> rfl

/-- Dispatches go out scope by scope, system first. -/
theorem call_dispatches (m : Merger) (c : MergerCall) :
    (m.call c).2 = Scope.all.flatMap fun scope =>
      flush scope (callScope scope (m.get scope) c).1 (callScope scope (m.get scope) c).2 := by
  cases c <;> simp [Scope.all, call, callScope, merge, remove, mergeScope, removeScope]

/-! ### Parts leave -/

/-- What is left of a task. -/
def withdraw (ids : List PartId) (leaves : Task → Bool) (t : Task) : Task :=
  if leaves t then t.removeMembers ids else t

@[simp] theorem mergeKey_withdraw (ids : List PartId) (leaves : Task → Bool) (t : Task) :
    (withdraw ids leaves t).mergeKey = t.mergeKey := by
  unfold withdraw
  split <;> rfl

@[simp] theorem sources_withdraw (ids : List PartId) (leaves : Task → Bool) (t : Task) :
    (withdraw ids leaves t).sources = t.sources := by
  unfold withdraw
  split <;> rfl

theorem removeMembers_eq_self {t : Task} {ids : List PartId} (h : t.concerns ids = false) :
    t.removeMembers ids = t := by
  have : t.members.filter (· ∉ ids) = t.members := by
    rw [List.filter_eq_self]
    intro p hp
    simpa using (List.any_eq_false.mp h) p hp
  rw [Task.removeMembers, this]

theorem detach_fst (scope : Scope) (ids : List PartId) (leaves : Task → Bool) (ts : List Task)
    (c : Changes) : (detach scope ids leaves ts c).1 = ts.map (withdraw ids leaves) := by
  induction ts generalizing c with
  | nil => rfl
  | cons t ts ih =>
    by_cases hl : leaves t = true
    · by_cases hc : t.concerns ids = true
      · simp [detach, withdraw, hl, hc, ih]
      · rw [Bool.not_eq_true] at hc
        simp [detach, withdraw, hl, hc, ih, removeMembers_eq_self hc]
    · simp [detach, withdraw, hl, ih]

/-- The tasks that still have members after parts left. -/
def part (ids : List PartId) (leaves : Task → Bool) (ts : List Task) : List Task :=
  dropEmpty (ts.map (withdraw ids leaves))

theorem mem_part {ids : List PartId} {leaves : Task → Bool} {ts : List Task} {u : Task} :
    u ∈ part ids leaves ts ↔ u.members ≠ [] ∧ ∃ t ∈ ts, u = withdraw ids leaves t := by
  simp only [part, dropEmpty, List.mem_filter, List.mem_map, Bool.not_eq_true',
    List.isEmpty_eq_false_iff]
  constructor
  · rintro ⟨⟨t, ht, rfl⟩, hne⟩; exact ⟨hne, t, ht, rfl⟩
  · rintro ⟨hne, t, ht, rfl⟩; exact ⟨⟨t, ht, rfl⟩, hne⟩

theorem mem_withdraw {ids : List PartId} {leaves : Task → Bool} {t : Task} {p : PartId} :
    p ∈ (withdraw ids leaves t).members ↔ p ∈ t.members ∧ ¬ (leaves t = true ∧ p ∈ ids) := by
  unfold withdraw
  split
  · simp [Task.removeMembers, *]
  · simp [*]

/-! ### A task joins -/

/-- One list of tasks for one scope. -/
structure Sound (ts : List Task) : Prop where
  keys : (ts.map Task.mergeKey).Nodup
  inhabited : ∀ t ∈ ts, t.members ≠ []
  nodup : ∀ t ∈ ts, t.members.Nodup
  disjoint : ∀ t ∈ ts, ∀ u ∈ ts, ∀ p, p ∈ t.members → p ∈ u.members → t = u

theorem eq_of_mergeKey {ts : List Task} (h : (ts.map Task.mergeKey).Nodup) {t u : Task}
    (ht : t ∈ ts) (hu : u ∈ ts) (hk : t.mergeKey = u.mergeKey) : t = u :=
  List.inj_on_of_nodup_map h ht hu hk

/-- A task takes over what an equal one brings. -/
def absorb (t task : Task) : Task := (t.addMembers task.members).addSources task.sources

@[simp] theorem mergeKey_absorb (t task : Task) : (absorb t task).mergeKey = t.mergeKey := rfl

theorem mem_absorb {t task : Task} {p : PartId} :
    p ∈ (absorb t task).members ↔ p ∈ t.members ∨ p ∈ task.members := Task.mem_appendNew

theorem mem_join {task : Task} {ts : List Task} (h : (ts.map Task.mergeKey).Nodup) {u : Task} :
    u ∈ join task ts ↔ (u ∈ ts ∧ u.mergeKey ≠ task.mergeKey) ∨
      (∃ t ∈ ts, t.mergeKey = task.mergeKey ∧ u = absorb t task) ∨
      ((∀ t ∈ ts, t.mergeKey ≠ task.mergeKey) ∧ u = task) := by
  induction ts with
  | nil => simp [join]
  | cons t ts ih =>
    rw [List.map_cons, List.nodup_cons] at h
    by_cases hk : t.mergeKey = task.mergeKey
    · -- the keys differ, so no later task is concerned
      have hts : ∀ v ∈ ts, v.mergeKey ≠ task.mergeKey :=
        fun v hv he => h.1 (hk ▸ he ▸ List.mem_map_of_mem hv)
      rw [join, if_pos hk, List.mem_cons]
      constructor
      · rintro (rfl | hu)
        · exact Or.inr (Or.inl ⟨t, List.mem_cons_self, hk, rfl⟩)
        · exact Or.inl ⟨List.mem_cons_of_mem _ hu, hts u hu⟩
      · rintro (⟨hu, hne⟩ | ⟨v, hv, he, rfl⟩ | ⟨hall, _⟩)
        · rcases List.mem_cons.mp hu with rfl | hu
          · exact absurd hk hne
          · exact Or.inr hu
        · rcases List.mem_cons.mp hv with rfl | hv
          · exact Or.inl rfl
          · exact absurd he (hts v hv)
        · exact absurd hk (hall t List.mem_cons_self)
    · rw [join, if_neg hk, List.mem_cons, ih h.2]
      simp only [List.mem_cons, exists_eq_or_imp, forall_eq_or_imp]
      constructor
      · rintro (rfl | ⟨hu, hne⟩ | hu | hu)
        · exact Or.inl ⟨Or.inl rfl, hk⟩
        · exact Or.inl ⟨Or.inr hu, hne⟩
        · exact Or.inr (Or.inl (Or.inr hu))
        · exact Or.inr (Or.inr ⟨⟨hk, hu.1⟩, hu.2⟩)
      · rintro (⟨rfl | hu, hne⟩ | (⟨he, _⟩ | hu) | hu)
        · exact Or.inl rfl
        · exact Or.inr (Or.inl ⟨hu, hne⟩)
        · exact absurd he hk
        · exact Or.inr (Or.inr (Or.inl hu))
        · exact Or.inr (Or.inr (Or.inr ⟨hu.1.2, hu.2⟩))

theorem map_mergeKey_join (task : Task) (ts : List Task) :
    (join task ts).map Task.mergeKey =
      if task.mergeKey ∈ ts.map Task.mergeKey then ts.map Task.mergeKey
      else ts.map Task.mergeKey ++ [task.mergeKey] := by
  induction ts with
  | nil => simp [join]
  | cons t ts ih =>
    by_cases hk : t.mergeKey = task.mergeKey
    · simp [join, hk]
    · by_cases hm : task.mergeKey ∈ ts.map Task.mergeKey
      · simp [join, hk, ih, hm]
      · simp [join, hk, ih, hm, Ne.symm hk]

theorem Sound.part {ts : List Task} (h : Sound ts) (ids : List PartId) (leaves : Task → Bool) :
    Sound (part ids leaves ts) := by
  constructor
  · have hm : (ts.map (withdraw ids leaves)).map Task.mergeKey = ts.map Task.mergeKey := by
      simp [Function.comp_def]
    exact (hm ▸ h.keys).sublist (List.filter_sublist.map _)
  · intro u hu
    exact (mem_part.mp hu).1
  · intro u hu
    obtain ⟨_, t, ht, rfl⟩ := mem_part.mp hu
    unfold withdraw
    split
    · exact (h.nodup t ht).filter _
    · exact h.nodup t ht
  · intro u hu v hv p hpu hpv
    obtain ⟨_, t, ht, rfl⟩ := mem_part.mp hu
    obtain ⟨_, w, hw, rfl⟩ := mem_part.mp hv
    rw [h.disjoint t ht w hw p (mem_withdraw.mp hpu).1 (mem_withdraw.mp hpv).1]

/-- Whoever is a member of the joined task came with it or was there before. -/
theorem member_join {task : Task} {ts : List Task} (h : (ts.map Task.mergeKey).Nodup) {u : Task}
    (hu : u ∈ join task ts) {p : PartId} (hp : p ∈ u.members) :
    (u ∈ ts ∧ u.mergeKey ≠ task.mergeKey) ∨ (u.mergeKey = task.mergeKey ∧
      (p ∈ task.members ∨ ∃ t ∈ ts, t.mergeKey = task.mergeKey ∧ p ∈ t.members)) := by
  rcases (mem_join h).mp hu with hu | ⟨t, ht, hk, rfl⟩ | ⟨_, rfl⟩
  · exact Or.inl hu
  · exact Or.inr ⟨hk, (mem_absorb.mp hp).symm.imp_right fun hp => ⟨t, ht, hk, hp⟩⟩
  · exact Or.inr ⟨rfl, Or.inl hp⟩

/-- Parts that join leave all other tasks first, so none of them is in two tasks. -/
theorem Sound.join {ts : List Task} (h : Sound ts) {task : Task} (hne : task.members ≠ [])
    (hnd : task.members.Nodup)
    (hfree : ∀ t ∈ ts, t.mergeKey ≠ task.mergeKey → ∀ p ∈ task.members, p ∉ t.members) :
    Sound (join task ts) := by
  have hkeys : ((Merger.join task ts).map Task.mergeKey).Nodup := by
    rw [map_mergeKey_join]
    split
    · exact h.keys
    · rename_i hm
      simpa [List.nodup_append, List.nodup_singleton] using ⟨h.keys, by simpa using hm⟩
  refine ⟨hkeys, ?_, ?_, ?_⟩
  · intro u hu
    rcases (mem_join h.keys).mp hu with ⟨hu, _⟩ | ⟨t, _, _, rfl⟩ | ⟨_, rfl⟩
    · exact h.inhabited u hu
    · obtain ⟨p, hp⟩ := List.exists_mem_of_ne_nil _ hne
      exact List.ne_nil_of_mem (mem_absorb.mpr (Or.inr hp))
    · exact hne
  · intro u hu
    rcases (mem_join h.keys).mp hu with ⟨hu, _⟩ | ⟨t, ht, _, rfl⟩ | ⟨_, rfl⟩
    · exact h.nodup u hu
    · exact Task.nodup_appendNew (h.nodup t ht)
    · exact hnd
  · have apart : ∀ u ∈ ts, u.mergeKey ≠ task.mergeKey → ∀ p ∈ u.members,
        ¬ (p ∈ task.members ∨ ∃ t ∈ ts, t.mergeKey = task.mergeKey ∧ p ∈ t.members) := by
      intro u hu hku p hpu hp
      rcases hp with hp | ⟨t, ht, hkt, hpt⟩
      · exact hfree u hu hku p hp hpu
      · exact hku (h.disjoint u hu t ht p hpu hpt ▸ hkt)
    intro u hu v hv p hpu hpv
    rcases member_join h.keys hu hpu with ⟨hu', hku⟩ | ⟨hku, hfrom⟩
    · rcases member_join h.keys hv hpv with ⟨hv', _⟩ | ⟨_, hfrom⟩
      · exact h.disjoint u hu' v hv' p hpu hpv
      · exact absurd hfrom (apart u hu' hku p hpu)
    · rcases member_join h.keys hv hpv with ⟨hv', hkv⟩ | ⟨hkv, _⟩
      · exact absurd hfrom (apart v hv' hkv p hpv)
      · exact eq_of_mergeKey hkeys hu hv (hku.trans hkv.symm)

/-! ### Calls and the parts they mention -/

theorem mem_mentions {c : MergerCall} {scope : Scope} {p : PartId} {u : Task} :
    some u ∈ c.mentions scope p ↔ u ∈ c.submitted scope ∧ p ∈ u.members := by
  cases c with
  | merge sets extra => simp [MergerCall.mentions]
  | remove ids =>
    by_cases hp : p ∈ ids
    · simp [MergerCall.mentions, MergerCall.submitted, hp]
    · simp [MergerCall.mentions, MergerCall.submitted, hp]

theorem latest_append_of_quiet {calls : List MergerCall} {c : MergerCall} {scope : Scope}
    {p : PartId} (h : c.mentions scope p = []) :
    latest scope p (calls ++ [c]) = latest scope p calls := by
  simp [latest, h]

theorem latest_append_of_mentioned {calls : List MergerCall} {c : MergerCall} {scope : Scope}
    {p : PartId} (h : c.mentions scope p ≠ []) :
    latest scope p (calls ++ [c]) = (c.mentions scope p).getLast?.join := by
  rw [latest, List.flatMap_append, List.flatMap_singleton, List.getLast?_append_of_ne_nil _ h]

theorem latest_submitted {calls : List MergerCall} {scope : Scope} {p : PartId} {u : Task}
    (h : latest scope p calls = some u) : ∃ c ∈ calls, u ∈ c.submitted scope ∧ p ∈ u.members := by
  have hm := List.mem_of_getLast? (Option.join_eq_some_iff.mp h)
  obtain ⟨c, hc, hu⟩ := List.mem_flatMap.mp hm
  exact ⟨c, hc, mem_mentions.mp hu⟩

theorem mergeTask_fst (scope : Scope) (task : Task) (ts : List Task) (c : Changes) :
    (mergeTask scope task ts c).1 =
      join task (part task.members (fun t => t.mergeKey ≠ task.mergeKey) ts) := by
  simp only [mergeTask, part, detach_fst]

/-- The task that is joined loses nobody. -/
theorem mem_part_of_eq {ts : List Task} (h : Sound ts) {task t : Task}
    (hk : t.mergeKey = task.mergeKey) :
    t ∈ part task.members (fun t => t.mergeKey ≠ task.mergeKey) ts ↔ t ∈ ts := by
  rw [mem_part]
  constructor
  · rintro ⟨_, u, hu, rfl⟩
    rw [mergeKey_withdraw] at hk
    simpa [withdraw, hk] using hu
  · intro ht
    exact ⟨h.inhabited t ht, t, ht, by simp [withdraw, hk]⟩

theorem mem_part_of_ne {ts : List Task} {task u : Task} (hk : u.mergeKey ≠ task.mergeKey) :
    u ∈ part task.members (fun t => t.mergeKey ≠ task.mergeKey) ts ↔
      u.members ≠ [] ∧ ∃ t ∈ ts, u = t.removeMembers task.members := by
  rw [mem_part]
  refine and_congr_right fun _ => exists_congr fun t => and_congr_right fun _ => ?_
  constructor
  · rintro rfl
    rw [mergeKey_withdraw] at hk
    simp [withdraw, hk]
  · rintro rfl
    rw [Task.mergeKey_removeMembers] at hk
    simp [withdraw, hk]

theorem mem_mergeTask {scope : Scope} {task : Task} {ts : List Task} {c : Changes} (h : Sound ts)
    {u : Task} : u ∈ (mergeTask scope task ts c).1 ↔
      (u.mergeKey ≠ task.mergeKey ∧ u.members ≠ [] ∧
        ∃ t ∈ ts, u = t.removeMembers task.members) ∨
      (∃ t ∈ ts, t.mergeKey = task.mergeKey ∧ u = absorb t task) ∨
      ((∀ t ∈ ts, t.mergeKey ≠ task.mergeKey) ∧ u = task) := by
  rw [mergeTask_fst, mem_join (h.part _ _).keys]
  refine or_congr ?_ (or_congr ?_ (and_congr_left fun _ => ?_))
  · rw [and_comm]
    exact and_congr_right mem_part_of_ne
  · refine exists_congr fun t => ?_
    constructor
    · rintro ⟨ht, hk, rfl⟩; exact ⟨(mem_part_of_eq h hk).mp ht, hk, rfl⟩
    · rintro ⟨ht, hk, rfl⟩; exact ⟨(mem_part_of_eq h hk).mpr ht, hk, rfl⟩
  · constructor
    · intro hall t ht hk; exact hall t ((mem_part_of_eq h hk).mpr ht) hk
    · intro hall t ht hk; exact hall t ((mem_part_of_eq h hk).mp ht) hk

theorem Sound.mergeTask {ts : List Task} (h : Sound ts) (scope : Scope) {task : Task} (c : Changes)
    (hne : task.members ≠ []) (hnd : task.members.Nodup) : Sound (mergeTask scope task ts c).1 := by
  rw [mergeTask_fst]
  refine (h.part _ _).join hne hnd fun t ht hk p hp hpt => ?_
  obtain ⟨_, u, _, rfl⟩ := (mem_part_of_ne hk).mp ht
  simp [Task.removeMembers, hp] at hpt

theorem mergeAll_fst {scope : Scope} {extra : List String} {sets : List TaskSet} {ts : List Task}
    {c : Changes} : (mergeAll scope extra sets ts c).1 =
      ((MergerCall.merge sets extra).submitted scope).foldl
        (fun ts u => (mergeTask scope u ts .none).1) ts := by
  induction sets generalizing ts c with
  | nil => rfl
  | cons set sets ih =>
    rw [mergeAll, ih, MergerCall.submitted, MergerCall.submitted, List.map_cons, List.foldl_cons,
      mergeTask_fst, mergeTask_fst]

/-- The tasks hold what was last said of every part. -/
structure Reflects (ts : List Task) (latest : PartId → Option Task) : Prop where
  sound : Sound ts
  placed : ∀ p u, latest p = some u →
    ∃ t ∈ ts, p ∈ t.members ∧ t.mergeKey = u.mergeKey ∧ u.sources ⊆ t.sources
  standing : ∀ t ∈ ts, ∀ p ∈ t.members, (latest p).isSome

theorem reflects_empty : Reflects [] fun _ => none := by
  refine ⟨⟨by simp, by simp, by simp, by simp⟩, by simp, by simp⟩

theorem Reflects.mergeTask {ts : List Task} {latest : PartId → Option Task}
    (h : Reflects ts latest) (scope : Scope) {task : Task} (c : Changes)
    (hne : task.members ≠ []) (hnd : task.members.Nodup) :
    Reflects (mergeTask scope task ts c).1
      (fun p => if p ∈ task.members then some task else latest p) := by
  refine ⟨h.sound.mergeTask scope c hne hnd, ?_, ?_⟩
  · intro p u hu
    by_cases hp : p ∈ task.members
    · rw [if_pos hp] at hu
      cases hu
      by_cases hk : ∃ t ∈ ts, t.mergeKey = task.mergeKey
      · obtain ⟨t, ht, hk⟩ := hk
        exact ⟨absorb t task, (mem_mergeTask h.sound).mpr (Or.inr (Or.inl ⟨t, ht, hk, rfl⟩)),
          mem_absorb.mpr (Or.inr hp), hk, fun f hf => Task.mem_appendNew.mpr (Or.inr hf)⟩
      · push Not at hk
        exact ⟨task, (mem_mergeTask h.sound).mpr (Or.inr (Or.inr ⟨hk, rfl⟩)), hp, rfl,
          List.Subset.refl _⟩
    · rw [if_neg hp] at hu
      obtain ⟨t, ht, hpt, hk, hs⟩ := h.placed p u hu
      by_cases he : t.mergeKey = task.mergeKey
      · exact ⟨absorb t task, (mem_mergeTask h.sound).mpr (Or.inr (Or.inl ⟨t, ht, he, rfl⟩)),
          mem_absorb.mpr (Or.inl hpt), hk, fun f hf => Task.mem_appendNew.mpr (Or.inl (hs hf))⟩
      · have hpr : p ∈ (t.removeMembers task.members).members := by
          simp [Task.removeMembers, hpt, hp]
        exact ⟨t.removeMembers task.members, (mem_mergeTask h.sound).mpr
          (Or.inl ⟨he, List.ne_nil_of_mem hpr, t, ht, rfl⟩), hpr, hk, hs⟩
  · intro u hu p hp
    by_cases hpt : p ∈ task.members
    · simp [hpt]
    · simp only [if_neg hpt]
      rcases (mem_mergeTask h.sound).mp hu with ⟨_, _, t, ht, rfl⟩ | ⟨t, ht, _, rfl⟩ | ⟨_, rfl⟩
      · exact h.standing t ht p (List.mem_of_mem_filter hp)
      · exact h.standing t ht p ((mem_absorb.mp hp).resolve_right hpt)
      · exact absurd hp hpt

theorem Reflects.remove {ts : List Task} {latest : PartId → Option Task} (h : Reflects ts latest)
    (ids : List PartId) :
    Reflects (part ids (fun _ => true) ts) (fun p => if p ∈ ids then none else latest p) := by
  refine ⟨h.sound.part _ _, ?_, ?_⟩
  · intro p u hu
    by_cases hp : p ∈ ids
    · simp [hp] at hu
    · rw [if_neg hp] at hu
      obtain ⟨t, ht, hpt, hk, hs⟩ := h.placed p u hu
      have hpw : p ∈ (withdraw ids (fun _ => true) t).members :=
        mem_withdraw.mpr ⟨hpt, fun hl => hp hl.2⟩
      exact ⟨_, mem_part.mpr ⟨List.ne_nil_of_mem hpw, t, ht, rfl⟩, hpw, hk, hs⟩
  · intro u hu p hp
    obtain ⟨_, t, ht, rfl⟩ := mem_part.mp hu
    obtain ⟨hpt, hn⟩ := mem_withdraw.mp hp
    rw [if_neg fun hi => hn ⟨rfl, hi⟩]
    exact h.standing t ht p hpt

theorem mentions_cons (scope : Scope) (p : PartId) (set : TaskSet) (sets : List TaskSet)
    (extra : List String) :
    (MergerCall.merge (set :: sets) extra).mentions scope p =
      (if p ∈ (set.get scope).members then [some (withExtra extra (set.get scope))] else []) ++
        (MergerCall.merge sets extra).mentions scope p := by
  by_cases hp : p ∈ (set.get scope).members
  · simp [MergerCall.mentions, MergerCall.submitted, withExtra, hp]
  · simp [MergerCall.mentions, MergerCall.submitted, withExtra, hp]

/-- The sets of a call one after the other, on top of what was said before. -/
theorem Reflects.mergeAll {scope : Scope} {extra : List String} {sets : List TaskSet}
    {ts : List Task} {said : PartId → List (Option Task)}
    (h : Reflects ts fun p => (said p).getLast?.join) (c : Changes)
    (hw : (MergerCall.merge sets extra).WellFormed) :
    Reflects (mergeAll scope extra sets ts c).1 fun p =>
      (said p ++ (MergerCall.merge sets extra).mentions scope p).getLast?.join := by
  induction sets generalizing ts c said with
  | nil => simpa [Merger.mergeAll, MergerCall.mentions, MergerCall.submitted] using h
  | cons set sets ih =>
    obtain ⟨hne, hnd⟩ := hw scope (withExtra extra (set.get scope)) (by simp [MergerCall.submitted])
    have hstep := h.mergeTask scope c hne hnd
    have hsaid : (fun p => if p ∈ (withExtra extra (set.get scope)).members then
          some (withExtra extra (set.get scope)) else (said p).getLast?.join) =
        fun p => (said p ++ if p ∈ (set.get scope).members then
          [some (withExtra extra (set.get scope))] else []).getLast?.join := by
      funext p
      by_cases hp : p ∈ (set.get scope).members
      · simp [withExtra, hp]
      · simp [withExtra, hp]
    rw [hsaid] at hstep
    have hrest := ih hstep (Merger.mergeTask scope (withExtra extra (set.get scope)) ts c).2
      fun s t ht => hw s t (by
        simp only [MergerCall.submitted, List.map_cons] at ht ⊢
        exact List.mem_cons_of_mem _ ht)
    simpa only [Merger.mergeAll, mentions_cons, List.append_assoc] using hrest

theorem reflects_after (calls : List MergerCall) (h : ∀ c ∈ calls, c.WellFormed) (scope : Scope) :
    Reflects ((after calls).get scope) fun p => latest scope p calls := by
  induction calls using List.reverseRecOn with
  | nil => cases scope <;> exact reflects_empty
  | append_singleton calls c ih =>
    have hi := ih fun d hd => h d (List.mem_append_left _ hd)
    rw [after_append, call_get]
    simp only [latest, List.flatMap_append, List.flatMap_cons, List.flatMap_nil, List.append_nil]
    cases c with
    | merge sets extra => exact hi.mergeAll _ (h _ (by simp))
    | remove ids =>
      have hr := hi.remove ids
      simp only [callScope, detach_fst]
      have hsaid : (fun p => if p ∈ ids then none else latest scope p calls) = fun p =>
          (calls.flatMap (MergerCall.mentions scope p) ++
            (MergerCall.remove ids).mentions scope p).getLast?.join := by
        funext p
        by_cases hp : p ∈ ids
        · simp [MergerCall.mentions, hp]
        · simp [MergerCall.mentions, hp, latest]
      rw [hsaid] at hr
      exact hr

theorem sound_after (calls : List MergerCall) (h : ∀ c ∈ calls, c.WellFormed) (scope : Scope) :
    Sound ((after calls).get scope) := (reflects_after calls h scope).sound

theorem Reflects.owner {ts : List Task} {latest : PartId → Option Task} (h : Reflects ts latest)
    {t : Task} (ht : t ∈ ts) {p : PartId} (hp : p ∈ t.members) :
    ∃ u, latest p = some u ∧ t.mergeKey = u.mergeKey ∧ u.sources ⊆ t.sources := by
  obtain ⟨u, hu⟩ := Option.isSome_iff_exists.mp (h.standing t ht p hp)
  obtain ⟨v, hv, hpv, hk, hs⟩ := h.placed p u hu
  obtain rfl := h.sound.disjoint t ht v hv p hp hpv
  exact ⟨u, hu, hk, hs⟩

/-- The members are the parts whose latest task has the same key. -/
theorem Reflects.mem_members {ts : List Task} {latest : PartId → Option Task}
    (h : Reflects ts latest) {t : Task} (ht : t ∈ ts) {p : PartId} :
    p ∈ t.members ↔ ∃ u, latest p = some u ∧ u.mergeKey = t.mergeKey := by
  constructor
  · intro hp
    obtain ⟨u, hu, hk, _⟩ := h.owner ht hp
    exact ⟨u, hu, hk.symm⟩
  · rintro ⟨u, hu, hk⟩
    obtain ⟨t', ht', hp, hk', _⟩ := h.placed p u hu
    exact eq_of_mergeKey h.sound.keys ht' ht (hk'.trans hk) ▸ hp

theorem Reflects.keyOf? {ts : List Task} {latest : PartId → Option Task} (h : Reflects ts latest)
    (p : PartId) : keyOf? ts p = (latest p).map Task.mergeKey := by
  unfold Merger.keyOf?
  cases hf : ts.find? (p ∈ ·.members) with
  | none =>
    cases hl : latest p with
    | none => rfl
    | some u =>
      obtain ⟨t, ht, hp, _⟩ := h.placed p u hl
      simpa [hp] using List.find?_eq_none.mp hf t ht
  | some t =>
    have hp : p ∈ t.members := by simpa using List.find?_some hf
    obtain ⟨u, hu, hk, _⟩ := h.owner (List.mem_of_find?_eq_some hf) hp
    simp [hu, hk]

/-- The law of the merged tasks. Of two histories that say the same of every part, in the same
order for each part alone, both keep every part under the same merge key. -/
theorem merged_tasks_law (calls : List MergerCall) (h : ∀ c ∈ calls, c.WellFormed) (scope : Scope) :
    Sound ((after calls).get scope) ∧
    (∀ p, (∃ t ∈ (after calls).get scope, p ∈ t.members) ↔ (latest scope p calls).isSome) ∧
    (∀ t ∈ (after calls).get scope, ∀ p ∈ t.members, ∃ u, latest scope p calls = some u ∧
      t.mergeKey = u.mergeKey ∧ u.sources ⊆ t.sources) ∧
    ∀ others : List MergerCall, (∀ c ∈ others, c.WellFormed) →
      (∀ p, (others.flatMap (MergerCall.mentions scope p)).map (Option.map Task.mergeKey) =
        (calls.flatMap (MergerCall.mentions scope p)).map (Option.map Task.mergeKey)) →
      ∀ p, keyOf? ((after others).get scope) p = keyOf? ((after calls).get scope) p := by
  have hr := reflects_after calls h scope
  refine ⟨hr.sound, ?_, fun t ht p hp => hr.owner ht hp, ?_⟩
  · intro p
    constructor
    · rintro ⟨t, ht, hp⟩
      exact hr.standing t ht p hp
    · intro hs
      obtain ⟨u, hu⟩ := Option.isSome_iff_exists.mp hs
      obtain ⟨t, ht, hp, _⟩ := hr.placed p u hu
      exact ⟨t, ht, hp⟩
  · intro others ho he p
    rw [(reflects_after others ho scope).keyOf?, hr.keyOf?]
    have hlast := congrArg (fun ms => ms.getLast?.join) (he p)
    simpa [latest, List.getLast?_map, Option.join_map_eq_map_join] using hlast

/-- A task for one header. -/
def headerTask (members : List PartId) (n : Nat) : Task :=
  ⟨members, [⟨n⟩], [⟨n⟩], [], .default⟩

def headerTasks (members : List PartId) (n : Nat) : TaskSet :=
  ⟨headerTask members n, headerTask members 0⟩

/-- Two parts share a task, one of them moves on, the other is removed. -/
def movingOn : List MergerCall :=
  [.merge [headerTasks ["a", "b"] 1] [], .merge [headerTasks ["a"] 2] ["-O2"], .remove ["b"]]

theorem merged_tasks_law_moving_on : (∀ c ∈ movingOn, c.WellFormed) ∧
    (¬ ∃ t ∈ (after movingOn).get .system, "b" ∈ t.members) ∧
    ∃ t ∈ (after movingOn).get .system, "a" ∈ t.members ∧
      t.mergeKey = (withExtra ["-O2"] (headerTask ["a"] 2)).mergeKey := by
  have hw : ∀ c ∈ movingOn, c.WellFormed := by decide
  obtain ⟨_, hmem, hkey, _⟩ := merged_tasks_law movingOn hw .system
  refine ⟨hw, fun hb => ?_, ?_⟩
  · have hnone : latest .system "b" movingOn = none := by decide
    simpa [hnone] using (hmem "b").mp hb
  · have hsome : latest .system "a" movingOn = some (withExtra ["-O2"] (headerTask ["a"] 2)) := by
      decide
    obtain ⟨t, ht, ha⟩ := (hmem "a").mpr (by rw [hsome]; rfl)
    obtain ⟨u, hu, hk, _⟩ := hkey t ht "a" ha
    exact ⟨t, ht, ha, hk.trans (by rw [Option.some.inj (hu.symm.trans hsome)])⟩

end Merger
end PrecompiledHeaders
