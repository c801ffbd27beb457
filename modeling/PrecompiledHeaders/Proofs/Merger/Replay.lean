import PrecompiledHeaders.Proofs.DigestValues
import PrecompiledHeaders.Proofs.Merger.Changes
import Mathlib.Logic.Function.Basic
/-! Replaying the dispatches. A sink that only ever sees dispatches, and never the merger, holds
after every call exactly the merged tasks. Within a call no key is named twice, nothing is resized
or retracted that the sink does not hold, and what is gone is retracted once. -/
namespace PrecompiledHeaders

namespace Dispatch

def scope : Dispatch → Scope
  | .add s _ => s
  | .update s _ => s
  | .remove s _ => s

def keys : Dispatch → List TaskKey
  | .add s tasks => tasks.map (·.key s)
  | .update s tasks => tasks.map (·.key s)
  | .remove _ keys => keys

def retracts : Dispatch → List TaskKey
  | .remove _ keys => keys
  | _ => []

/-- The keys named for one scope, in order. -/
def named (scope : Scope) (ds : List Dispatch) : List TaskKey :=
  ds.flatMap fun d => if d.scope = scope then d.keys else []

def retractions (scope : Scope) (ds : List Dispatch) : List TaskKey :=
  ds.flatMap fun d => if d.scope = scope then d.retracts else []

end Dispatch

/-- What a sink holds for one scope. -/
abbrev Held := TaskKey → Option Task

namespace Held

/-- Each task gives its key a new value, made from the one before. -/
def revise (scope : Scope) (f : Task → Option Task → Option Task) (tasks : List Task)
    (held : Held) : Held :=
  tasks.foldl (fun held t => Function.update held (t.key scope) (f t (held (t.key scope)))) held

/-- Added tasks are inserted or replaced, updated ones only take over members where the key is
held, removed keys are deleted. -/
def take (scope : Scope) (held : Held) : Dispatch → Held
  | .add s tasks => if s = scope then revise s (fun t _ => some t) tasks held else held
  | .update s tasks =>
    if s = scope then
      revise s (fun t old => old.map fun u => { u with members := t.members }) tasks held
    else held
  | .remove s keys => if s = scope then fun k => if k ∈ keys then none else held k else held

variable {scope : Scope} {f : Task → Option Task → Option Task} {tasks : List Task} {held : Held}

theorem revise_cons (t : Task) (ts : List Task) (held : Held) : revise scope f (t :: ts) held =
    revise scope f ts (Function.update held (t.key scope) (f t (held (t.key scope)))) := by
  rw [revise, revise, List.foldl_cons]

theorem revise_of_not_mem {k : TaskKey} (hk : k ∉ tasks.map (·.key scope)) :
    revise scope f tasks held k = held k := by
  induction tasks generalizing held with
  | nil => rfl
  | cons t ts ih =>
    rw [List.map_cons, List.mem_cons, not_or] at hk
    rw [revise_cons, ih hk.2, Function.update_of_ne hk.1]

theorem revise_of_mem (hn : (tasks.map (·.key scope)).Nodup) {t : Task} (ht : t ∈ tasks) :
    revise scope f tasks held (t.key scope) = f t (held (t.key scope)) := by
  induction tasks generalizing held with
  | nil => exact absurd ht List.not_mem_nil
  | cons u us ih =>
    rw [List.map_cons, List.nodup_cons] at hn
    rw [revise_cons]
    rcases List.mem_cons.mp ht with rfl | ht
    · rw [revise_of_not_mem hn.1, Function.update_self]
    · have hne : t.key scope ≠ u.key scope := fun he => hn.1 (he ▸ List.mem_map_of_mem ht)
      rw [ih hn.2 ht, Function.update_of_ne hne]

/-- A dispatch has no effect on a key it does not name. -/
theorem take_of_not_named {d : Dispatch} {k : TaskKey} (h : d.scope = scope → k ∉ d.keys) :
    held.take scope d k = held k := by
  cases d with
  | add s ts =>
    by_cases hs : s = scope
    · simpa [take, hs] using revise_of_not_mem (hs ▸ h hs)
    · simp [take, hs]
  | update s ts =>
    by_cases hs : s = scope
    · simpa [take, hs] using revise_of_not_mem (hs ▸ h hs)
    · simp [take, hs]
  | remove s ks =>
    by_cases hs : s = scope
    · have hk : k ∉ ks := h hs
      simp [take, hs, hk]
    · simp [take, hs]

theorem foldl_take_of_not_named {ds : List Dispatch} {k : TaskKey}
    (h : k ∉ Dispatch.named scope ds) : ds.foldl (take scope) held k = held k := by
  induction ds generalizing held with
  | nil => rfl
  | cons d ds ih =>
    rw [Dispatch.named, List.flatMap_cons, List.mem_append, not_or] at h
    rw [List.foldl_cons, ih h.2]
    refine take_of_not_named fun hs hk => h.1 ?_
    rwa [if_pos hs]

end Held

namespace Merger

variable {scope : Scope} {was now : List Task} {c : Changes}

/-- All dispatches of these calls, one call after the other. -/
def toldFrom (m : Merger) : List MergerCall → List Dispatch
  | [] => []
  | c :: cs => (m.call c).2 ++ toldFrom (m.call c).1 cs

/-- What a sink holds after these calls. -/
def replayed (scope : Scope) (calls : List MergerCall) : Held :=
  (toldFrom .empty calls).foldl (Held.take scope) fun _ => none

theorem toldFrom_append (m : Merger) (calls others : List MergerCall) :
    toldFrom m (calls ++ others) =
      toldFrom m calls ++ toldFrom (calls.foldl (fun m c => (m.call c).1) m) others := by
  induction calls generalizing m with
  | nil => rfl
  | cons c calls ih => simp [toldFrom, ih]

theorem replayed_append (scope : Scope) (calls : List MergerCall) (c : MergerCall) :
    replayed scope (calls ++ [c]) =
      ((after calls).call c).2.foldl (Held.take scope) (replayed scope calls) := by
  simp [replayed, toldFrom_append, toldFrom, after]

/-! ### One call -/

/-- The sink holds these tasks and no others. -/
def Mirrors (scope : Scope) (held : Held) (ts : List Task) : Prop :=
  ∀ k t, held k = some t ↔ t ∈ ts ∧ t.key scope = k

theorem foldl_take_flush (held : Held) : (flush scope now c).foldl (Held.take scope) held =
    Held.revise scope (fun t _ => some t) (renewed scope now c)
      (Held.revise scope (fun t old => old.map fun u => { u with members := t.members })
        (resized scope now c) fun k => if k ∈ retracted scope now c then none else held k) := by
  rw [foldl_flush (Held.take scope) held fun h => by simp [Held.take, Held.revise]]
  simp [Held.take]

theorem foldl_take_flush_of_ne {s : Scope} (hs : s ≠ scope) (held : Held) :
    (flush s now c).foldl (Held.take scope) held = held := by
  rw [foldl_flush (Held.take scope) held fun h => by simp [Held.take, hs]]
  simp [Held.take, hs]

theorem Turn.held_now (h : Turn scope was now c) {held : Held} (hm : Mirrors scope held was)
    {t : Task} (ht : t ∈ now) :
    (flush scope now c).foldl (Held.take scope) held (t.key scope) = some t := by
  rw [foldl_take_flush]
  have hr : t.key scope ∉ retracted scope now c := fun hr => (mem_retracted.mp hr).2 t ht rfl
  have hfresh : t.key scope ∉ c.added → t.key scope ∉ (renewed scope now c).map (·.key scope) := by
    intro ha hmem
    obtain ⟨u, hu, he⟩ := List.mem_map.mp hmem
    exact ha (he ▸ (h.mem_renewed.mp hu).2)
  rcases h.cases ht with ⟨_, hnew⟩ | ⟨ha, t₀, ht₀, heq, _, hres | ⟨hres, hsame⟩⟩
  · rw [Held.revise_of_mem h.nodup_renewed hnew]
  · have hk : t₀.key scope = t.key scope := by rw [heq]; rfl
    rw [Held.revise_of_not_mem (hfresh ha), Held.revise_of_mem h.nodup_resized hres, if_neg hr,
      (hm _ _).mpr ⟨ht₀, hk⟩, Option.map_some, ← heq]
  · rw [Held.revise_of_not_mem (hfresh ha), Held.revise_of_not_mem hres, if_neg hr]
    exact (hm _ _).mpr ⟨hsame ▸ ht₀, rfl⟩

theorem Turn.held_gone (h : Turn scope was now c) {held : Held} (hm : Mirrors scope held was)
    {k : TaskKey} (hk : ∀ t ∈ now, t.key scope ≠ k) :
    (flush scope now c).foldl (Held.take scope) held k = none := by
  have hnew : k ∉ (renewed scope now c).map (·.key scope) := by
    intro hmem
    obtain ⟨u, hu, he⟩ := List.mem_map.mp hmem
    exact hk u (h.mem_renewed.mp hu).1 he
  have hres : k ∉ (resized scope now c).map (·.key scope) := by
    intro hmem
    obtain ⟨u, hu, he⟩ := List.mem_map.mp hmem
    exact hk u (h.mem_resized.mp hu).1 he
  rw [foldl_take_flush, Held.revise_of_not_mem hnew, Held.revise_of_not_mem hres]
  split
  · rfl
  · rename_i hr
    rw [Option.eq_none_iff_forall_ne_some]
    intro t₀ ht₀
    obtain ⟨hmem, rfl⟩ := (hm k t₀).mp ht₀
    exact hr ((h.retracted_iff hmem).mpr hk)

theorem Turn.mirrors (h : Turn scope was now c) {held : Held} (hm : Mirrors scope held was) :
    Mirrors scope ((flush scope now c).foldl (Held.take scope) held) now := by
  intro k t
  constructor
  · intro hk
    by_cases hex : ∃ u ∈ now, u.key scope = k
    · obtain ⟨u, hu, rfl⟩ := hex
      rw [h.held_now hm hu] at hk
      obtain rfl := Option.some.inj hk
      exact ⟨hu, rfl⟩
    · push Not at hex
      rw [h.held_gone hm hex] at hk
      exact absurd hk (Option.some_ne_none t).symm
  · rintro ⟨ht, rfl⟩
    exact h.held_now hm ht

/-- Of the dispatches of a call, a sink for one scope sees those of its scope. -/
theorem foldl_take_call (calls : List MergerCall) (c : MergerCall) (scope : Scope) (held : Held) :
    ((after calls).call c).2.foldl (Held.take scope) held =
      (flush scope ((after (calls ++ [c])).get scope) (notes calls c scope)).foldl
        (Held.take scope) held :=
  foldl_call calls c scope _ _ fun _ hs _ _ => foldl_take_flush_of_ne hs _

theorem mirrors_replayed {calls : List MergerCall} (h : Admissible calls) (scope : Scope) :
    Mirrors scope (replayed scope calls) ((after calls).get scope) := by
  induction calls using List.reverseRecOn with
  | nil => intro k t; cases scope <;> simp [replayed, toldFrom, after, empty, PerScope.get]
  | append_singleton calls c ih =>
    rw [replayed_append, foldl_take_call]
    exact (turn h scope).mirrors (ih h.left)

/-! ### What a call names -/

/-- A reading of the dispatches of one scope is a reading of its three lists. -/
theorem flatMap_call (calls : List MergerCall) (c : MergerCall) (scope : Scope)
    (f : Dispatch → List β) (hf : ∀ s, f (.remove s []) = [] ∧ f (.update s []) = [] ∧
      f (.add s []) = []) :
    (((after calls).call c).2.flatMap fun d => if d.scope = scope then f d else []) =
      f (.remove scope
        (retracted scope ((after (calls ++ [c])).get scope) (notes calls c scope))) ++
      f (.update scope (resized scope ((after (calls ++ [c])).get scope) (notes calls c scope))) ++
      f (.add scope (renewed scope ((after (calls ++ [c])).get scope) (notes calls c scope))) := by
  have hflush : ∀ (s : Scope) (ts : List Task) (n : Changes),
      ((flush s ts n).flatMap fun d => if d.scope = scope then f d else []) =
        if s = scope then f (.remove s (retracted s ts n)) ++ f (.update s (resized s ts n)) ++
          f (.add s (renewed s ts n)) else [] := by
    intro s ts n
    rw [flatMap_flush _ (by simp [Dispatch.scope, hf])]
    by_cases hs : s = scope
    · simp [Dispatch.scope, hs]
    · simp [Dispatch.scope, hs]
  rw [call_told, Scope.all, List.flatMap_assoc, List.flatMap_cons, List.flatMap_cons,
    List.flatMap_nil, List.append_nil, hflush, hflush]
  cases scope
  · simp
  · simp

theorem named_call (calls : List MergerCall) (c : MergerCall) (scope : Scope) :
    Dispatch.named scope ((after calls).call c).2 =
      retracted scope ((after (calls ++ [c])).get scope) (notes calls c scope) ++
      (resized scope ((after (calls ++ [c])).get scope) (notes calls c scope)).map (·.key scope) ++
      (renewed scope ((after (calls ++ [c])).get scope)
        (notes calls c scope)).map (·.key scope) := by
  rw [Dispatch.named, flatMap_call calls c scope Dispatch.keys fun s => by simp [Dispatch.keys]]
  simp only [Dispatch.keys]

theorem retractions_call (calls : List MergerCall) (c : MergerCall) (scope : Scope) :
    Dispatch.retractions scope ((after calls).call c).2 =
      retracted scope ((after (calls ++ [c])).get scope) (notes calls c scope) := by
  rw [Dispatch.retractions, flatMap_call calls c scope Dispatch.retracts fun _ =>
    ⟨rfl, rfl, rfl⟩]
  simp [Dispatch.retracts]

theorem nodup_named {calls : List MergerCall} {c : MergerCall} (h : Admissible (calls ++ [c]))
    (scope : Scope) : (Dispatch.named scope ((after calls).call c).2).Nodup :=
  named_call calls c scope ▸ (turn h scope).nodup_told

theorem mem_flush {d : Dispatch} (h : d ∈ flush scope now c) :
    d = .remove scope (retracted scope now c) ∨ d = .update scope (resized scope now c) ∨
      d = .add scope (renewed scope now c) := by
  have hone : ∀ e : Dispatch, ∀ b : Bool, d ∈ (if b then [] else [e]) → d = e := by
    intro e b hb
    cases b
    · exact List.mem_singleton.mp hb
    · exact absurd hb List.not_mem_nil
  rw [flush, List.mem_append, List.mem_append, or_assoc] at h
  exact h.imp (hone _ _) (Or.imp (hone _ _) (hone _ _))

/-- Updated and removed keys were merged before the call. -/
theorem was_merged {calls : List MergerCall} {c : MergerCall} (h : Admissible (calls ++ [c]))
    (hd : c.Separate) {d : Dispatch} (hmem : d ∈ ((after calls).call c).2)
    (hadd : ∀ tasks, d ≠ .add d.scope tasks) {k : TaskKey} (hk : k ∈ d.keys) :
    ∃ t₀ ∈ (after calls).get d.scope, t₀.key d.scope = k := by
  rw [call_told] at hmem
  obtain ⟨s, _, hflush⟩ := List.mem_flatMap.mp hmem
  have ht := turn h s
  rcases mem_flush hflush with rfl | rfl | rfl
  · have hw : c.WellFormed := h.wellFormed c (by simp)
    exact removed_callScope_of_separate ht.before hw hd k (mem_retracted.mp hk).1
  · obtain ⟨t, hres, rfl⟩ := List.mem_map.mp hk
    obtain ⟨hnow, _, ha⟩ := ht.mem_resized.mp hres
    obtain ⟨t₀, ht₀, heq, _⟩ := ht.tracks.kept t hnow ha
    exact ⟨t₀, ht₀, by rw [heq]; rfl⟩
  · exact absurd rfl (hadd _)

/-- All keys a call tells of are those of tasks handed in by then. -/
theorem told_names {calls : List MergerCall} {c : MergerCall} (h : Admissible (calls ++ [c]))
    {d : Dispatch} (hmem : d ∈ ((after calls).call c).2) {k : TaskKey} (hk : k ∈ d.keys) :
    ∃ t, Names (calls ++ [c]) d.scope t ∧ t.key d.scope = k := by
  rw [call_told] at hmem
  obtain ⟨s, _, hflush⟩ := List.mem_flatMap.mp hmem
  have ht := turn h s
  rcases mem_flush hflush with rfl | rfl | rfl
  · obtain ⟨u, hu, he⟩ :=
      removed_callScope ht.before (h.wellFormed c (by simp)) k (mem_retracted.mp hk).1
    refine ⟨u, ?_, he⟩
    rcases List.mem_append.mp hu with hu | hu
    · exact (names_of_after h.left.wellFormed hu).mono (List.subset_append_left _ _)
    · exact ⟨c, by simp, u, hu, rfl⟩
  · obtain ⟨t, hres, he⟩ := List.mem_map.mp hk
    exact ⟨t, names_of_after h.wellFormed (ht.mem_resized.mp hres).1, he⟩
  · obtain ⟨t, hnew, he⟩ := List.mem_map.mp hk
    exact ⟨t, names_of_after h.wellFormed (ht.mem_renewed.mp hnew).1, he⟩

theorem held_before {calls : List MergerCall} {c : MergerCall} (h : Admissible (calls ++ [c]))
    (hd : c.Separate) {pre post : List Dispatch} {d : Dispatch}
    (hsplit : ((after calls).call c).2 = pre ++ d :: post) (hadd : ∀ tasks, d ≠ .add d.scope tasks)
    {k : TaskKey} (hk : k ∈ d.keys) :
    (pre.foldl (Held.take d.scope) (replayed d.scope calls) k).isSome := by
  -- a key is named once, so no earlier dispatch of the call touched it
  have hn := nodup_named h d.scope
  rw [hsplit, Dispatch.named, List.flatMap_append, List.flatMap_cons, if_pos rfl] at hn
  have hpre : k ∉ Dispatch.named d.scope pre := fun hp =>
    (List.nodup_append.mp hn).2.2 k hp k (List.mem_append_left _ hk) rfl
  obtain ⟨t₀, ht₀, he⟩ := was_merged h hd (hsplit ▸ by simp) hadd hk
  rw [Held.foldl_take_of_not_named hpre, (mirrors_replayed h.left d.scope k t₀).mpr ⟨ht₀, he⟩]
  rfl

/-! ### Keys of a few tasks -/

/-- Two system headers, and the project header on top of them. -/
def headerKeys : List (Scope × MergeKey) :=
  [(.system, (headerTask [] 1).mergeKey), (.system, (headerTask [] 2).mergeKey),
    (.project, (headerTask [] 0).mergeKey)]

def headerTexts : List String := headerKeys.map fun k => Task.keyText k.1 k.2

theorem headerTexts_digests : headerTexts.map (fun text => (digestText text).toList.take 2) =
    [['7', '6'], ['e', 'd'], ['a', '5']] := by
  simp only [headerTexts, headerKeys, List.map_cons, List.map_nil, digestText, Task.keyText,
    encode_append_compact, digest_eq_digestNat]
  decide +kernel

theorem headerTexts_collisionFree : CollisionFree headerTexts := by
  have hn : (headerTexts.map digestText).Nodup := by
    refine List.Nodup.of_map (fun d => d.toList.take 2) ?_
    simp only [List.map_map, Function.comp_def]
    rw [headerTexts_digests]
    decide
  intro x hx y hy hd
  exact List.inj_on_of_nodup_map (f := digestText) hn hx hy hd

theorem mem_headerTexts {s : Scope} {k : MergeKey} (h : (s, k) ∈ headerKeys) :
    Task.keyText s k ∈ headerTexts :=
  List.mem_map_of_mem (f := fun k : Scope × MergeKey => Task.keyText k.1 k.2) h

theorem admissible_headers {calls : List MergerCall} (hw : ∀ c ∈ calls, c.WellFormed)
    (hk : ∀ c ∈ calls, ∀ scope, ∀ t ∈ c.submitted scope, (scope, t.mergeKey) ∈ headerKeys) :
    Admissible calls := by
  refine ⟨hw, headerTexts_collisionFree.mono fun text ht => ?_⟩
  obtain ⟨c, hc, ht⟩ := List.mem_flatMap.mp ht
  obtain ⟨s, _, ht⟩ := List.mem_flatMap.mp ht
  obtain ⟨t, hs, rfl⟩ := List.mem_map.mp ht
  exact mem_headerTexts (hk c hc s t hs)

theorem headerTask_key_ne (xs ys : List PartId) :
    (headerTask xs 1).key .system ≠ (headerTask ys 2).key .system := by
  intro he
  have hx : (Scope.system, (headerTask xs 1).mergeKey) ∈ headerKeys := List.mem_cons_self
  have hy : (Scope.system, (headerTask ys 2).mergeKey) ∈ headerKeys :=
    List.mem_cons_of_mem _ List.mem_cons_self
  have hm := headerTexts_collisionFree.key_inj (mem_headerTexts hx) (mem_headerTexts hy) he
  exact absurd (congrArg MergeKey.includes hm.2) (show ([⟨1⟩] : List FileId) ≠ [⟨2⟩] by decide)

/-! ### The whole -/

/-- Replaying the dispatches gives the merged tasks, and every call is told without slack: each
key once, nothing resized or retracted that is not held, and what is gone retracted once. -/
theorem sink_replay (calls : List MergerCall) (c : MergerCall) (h : Admissible (calls ++ [c]))
    (hd : c.Separate) (scope : Scope) :
    (∀ k t, replayed scope (calls ++ [c]) k = some t ↔
      t ∈ (after (calls ++ [c])).get scope ∧ t.key scope = k) ∧
    (Dispatch.named scope ((after calls).call c).2).Nodup ∧
    (∀ pre d post, ((after calls).call c).2 = pre ++ d :: post → d.scope = scope →
      (∀ tasks, d ≠ .add scope tasks) → ∀ k ∈ d.keys,
        (pre.foldl (Held.take scope) (replayed scope calls) k).isSome) ∧
    (∀ t₀ ∈ (after calls).get scope,
      (∀ t ∈ (after (calls ++ [c])).get scope, t.key scope ≠ t₀.key scope) →
        (Dispatch.retractions scope ((after calls).call c).2).count (t₀.key scope) = 1) ∧
    ∀ t ∈ (after (calls ++ [c])).get scope,
      t.key scope ∉ Dispatch.retractions scope ((after calls).call c).2 := by
  have ht := turn h scope
  refine ⟨mirrors_replayed h scope, nodup_named h scope, ?_, ?_, ?_⟩
  · rintro pre d post hsplit rfl hadd k hk
    exact held_before h hd hsplit hadd hk
  · intro t₀ ht₀ hgone
    rw [retractions_call]
    exact List.count_eq_one_of_mem (ht.tracks.once.removed.filter _)
      ((ht.retracted_iff ht₀).mpr hgone)
  · intro t hnow hk
    rw [retractions_call] at hk
    exact (mem_retracted.mp hk).2 t hnow rfl

/-- Two parts share a task and move on together. -/
theorem sink_replay_moving_on :
    let first := [MergerCall.merge [headerTasks ["a", "b"] 1] []]
    let second := MergerCall.merge [headerTasks ["a"] 2, headerTasks ["b"] 2] []
    Admissible (first ++ [second]) ∧ second.Separate ∧
    replayed .system (first ++ [second]) ((headerTask ["a", "b"] 2).key .system) =
      some (headerTask ["a", "b"] 2) ∧
    (Dispatch.retractions .system ((after first).call second).2).count
      ((headerTask ["a", "b"] 1).key .system) = 1 := by
  intro first second
  have hadm : Admissible (first ++ [second]) := admissible_headers (by decide) (by decide)
  have hd : second.Separate := by decide
  have hfirst : headerTask ["a", "b"] 1 ∈ (after first).get .system := by decide
  have hsecond : (after (first ++ [second])).get .system = [headerTask ["a", "b"] 2] := by decide
  obtain ⟨hheld, _, _, hgone, _⟩ := sink_replay first second hadm hd .system
  refine ⟨hadm, hd, (hheld _ _).mpr ⟨by rw [hsecond]; exact List.mem_singleton_self _, rfl⟩,
    hgone _ hfirst fun t ht he => ?_⟩
  rw [hsecond, List.mem_singleton] at ht
  subst ht
  exact headerTask_key_ne _ _ he.symm

end Merger
end PrecompiledHeaders
