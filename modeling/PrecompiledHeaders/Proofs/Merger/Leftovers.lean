import PrecompiledHeaders.Split
import PrecompiledHeaders.Proofs.Fingerprints
import PrecompiledHeaders.Proofs.Merger.Membership
/-! What parts leave behind. A merged task takes over the sources of everything handed in under its
key for as long as it stands, and nothing is taken out of it when parts leave. So its sources tell who
was there since it came to be, and not who is there now; a start from nothing forgets the leftovers. -/
namespace PrecompiledHeaders

/-- The sets of a call, one at a time. -/
def MergerCall.steps : MergerCall → List MergerCall
  | .merge sets extra => sets.map fun set => .merge [set] extra
  | .remove ids => [.remove ids]

namespace Merger

variable {scope : Scope} {calls steps : List MergerCall} {c d : MergerCall} {ts : List Task}
  {t u v : Task} {p : PartId} {f : FileId}

/-! ### One set at a time -/

theorem mentions_steps (c : MergerCall) :
    c.steps.flatMap (MergerCall.mentions scope p) = c.mentions scope p := by
  cases c with
  | merge sets extra =>
    induction sets with
    | nil => rfl
    | cons set sets ih =>
      rw [mentions_cons, ← ih, MergerCall.steps, List.map_cons, List.flatMap_cons, mentions_cons]
      simp [MergerCall.steps, MergerCall.mentions, MergerCall.submitted]
  | remove ids => exact List.flatMap_singleton _ _

theorem latest_steps (calls : List MergerCall) :
    latest scope p (calls.flatMap MergerCall.steps) = latest scope p calls := by
  rw [latest, List.flatMap_assoc, List.flatMap_congr fun c _ => mentions_steps c, latest]

theorem submitted_steps (hd : d ∈ c.steps) (hu : u ∈ d.submitted scope) : u ∈ c.submitted scope := by
  cases c with
  | merge sets extra =>
    obtain ⟨set, hset, rfl⟩ := List.mem_map.mp hd
    obtain rfl := List.mem_singleton.mp hu
    exact List.mem_map_of_mem hset
  | remove ids => exact List.mem_singleton.mp hd ▸ hu

theorem wellFormed_steps (h : ∀ c ∈ calls, c.WellFormed) :
    ∀ d ∈ calls.flatMap MergerCall.steps, d.WellFormed := by
  intro d hd s u hu
  obtain ⟨c, hc, hdc⟩ := List.mem_flatMap.mp hd
  exact h c hc s u (submitted_steps hdc hu)

theorem call_steps (m : Merger) (c : MergerCall) :
    c.steps.foldl (fun m d => (m.call d).1) m = (m.call c).1 := by
  cases c with
  | merge sets extra =>
    have hscope : ∀ s, (((MergerCall.merge sets extra).steps).foldl (fun m d => (m.call d).1) m).get s =
        ((m.call (.merge sets extra)).1).get s := by
      intro s
      rw [call_get, callScope, mergeAll_fst]
      induction sets generalizing m with
      | nil => rfl
      | cons set sets ih =>
        rw [MergerCall.steps, List.map_cons, List.foldl_cons]
        refine (ih _).trans ?_
        rw [call_get]
        rfl
    exact congrArg₂ PerScope.mk (hscope .system) (hscope .project)
  | remove ids => rfl

theorem after_steps (calls : List MergerCall) :
    after (calls.flatMap MergerCall.steps) = after calls := by
  rw [after, List.foldl_flatMap, after]
  exact List.foldl_ext _ _ _ fun m c _ => call_steps m c

/-- Where the sources of a task are from that stands after one step. -/
theorem mem_sources_step (h : Sound ts) (hd : d ∈ c.steps) (ht : t ∈ (callScope scope ts d).1) :
    f ∈ t.sources ↔ (∃ u ∈ d.submitted scope, u.mergeKey = t.mergeKey ∧ f ∈ u.sources) ∨
      ∃ s ∈ ts, s.mergeKey = t.mergeKey ∧ f ∈ s.sources := by
  have hold : ∀ s ∈ ts, s.mergeKey = t.mergeKey →
      ((∃ s' ∈ ts, s'.mergeKey = t.mergeKey ∧ f ∈ s'.sources) ↔ f ∈ s.sources) := by
    intro s hs hk
    constructor
    · rintro ⟨s', hs', hk', hf⟩
      exact eq_of_mergeKey h.keys hs' hs (hk'.trans hk.symm) ▸ hf
    · exact fun hf => ⟨s, hs, hk, hf⟩
  cases c with
  | merge sets extra =>
    obtain ⟨set, -, rfl⟩ := List.mem_map.mp hd
    have hone : (MergerCall.merge [set] extra).submitted scope = [withExtra extra (set.get scope)] :=
      rfl
    rw [hone]
    simp only [List.mem_singleton, exists_eq_left]
    rcases (mem_mergeTask h).mp ht with ⟨hk, -, s, hs, rfl⟩ | ⟨s, hs, hk, rfl⟩ | ⟨hnone, rfl⟩
    · rw [hold s hs rfl, or_iff_right fun hnew => hk hnew.1.symm]
      rfl
    · rw [hold s hs rfl, mergeKey_absorb, and_iff_right hk.symm, or_comm]
      exact Task.mem_appendNew
    · rw [and_iff_right rfl, or_iff_left]
      rintro ⟨s, hs, hk, -⟩
      exact hnone s hs hk
  | remove ids =>
    obtain rfl := List.mem_singleton.mp hd
    rw [callScope, detach_fst] at ht
    obtain ⟨-, s, hs, rfl⟩ := mem_part.mp ht
    rw [hold s hs (mergeKey_withdraw _ _ _).symm, sources_withdraw, or_iff_right]
    rintro ⟨u, hu, -⟩
    exact absurd hu List.not_mem_nil

/-! ### What was brought -/

/-- The task was handed in, and ever since a task has stood under its merge key. -/
def Brought (scope : Scope) (steps : List MergerCall) (u : Task) : Prop :=
  ∃ before d later, steps = before ++ d :: later ∧ u ∈ d.submitted scope ∧
    ∀ mid, mid <+: later → ∃ t ∈ (after (before ++ d :: mid)).get scope, t.mergeKey = u.mergeKey

theorem Brought.stands (h : Brought scope steps u) :
    ∃ t ∈ (after steps).get scope, t.mergeKey = u.mergeKey := by
  obtain ⟨before, d, later, rfl, -, hmid⟩ := h
  exact hmid later List.prefix_rfl

theorem brought_append : Brought scope (steps ++ [d]) u ↔
    (u ∈ d.submitted scope ∨ Brought scope steps u) ∧
      ∃ t ∈ (after (steps ++ [d])).get scope, t.mergeKey = u.mergeKey := by
  constructor
  · intro h
    refine ⟨?_, h.stands⟩
    obtain ⟨before, e, later, he, hu, hmid⟩ := h
    rcases later.eq_nil_or_concat with rfl | ⟨later, last, rfl⟩
    · obtain ⟨-, hde⟩ := List.append_inj' he rfl
      exact Or.inl ((List.cons.inj hde).1 ▸ hu)
    · rw [List.concat_eq_append] at he hmid
      rw [← List.cons_append, ← List.append_assoc] at he
      obtain ⟨rfl, -⟩ := List.append_inj' he rfl
      exact Or.inr ⟨before, e, later, rfl, hu, fun mid hm =>
        hmid mid (hm.trans (List.prefix_append _ _))⟩
  · rintro ⟨hu | ⟨before, e, later, rfl, hu, hmid⟩, hnow⟩
    · refine ⟨steps, d, [], rfl, hu, fun mid hm => ?_⟩
      obtain rfl := List.prefix_nil.mp hm
      exact hnow
    · refine ⟨before, e, later ++ [d], by simp, hu, fun mid hm => ?_⟩
      rcases List.prefix_concat_iff.mp hm with rfl | hm
      · simpa using hnow
      · exact hmid mid hm

/-- The sources of a task are the sources of what was brought, whoever is a member now. -/
theorem mem_sources (hsteps : ∀ d ∈ steps, ∃ c : MergerCall, d ∈ c.steps)
    (hw : ∀ d ∈ steps, d.WellFormed) (ht : t ∈ (after steps).get scope) :
    f ∈ t.sources ↔ ∃ u, Brought scope steps u ∧ u.mergeKey = t.mergeKey ∧ f ∈ u.sources := by
  induction steps using List.reverseRecOn generalizing t with
  | nil => cases scope <;> exact absurd ht List.not_mem_nil
  | append_singleton steps d ih =>
    have ih := fun {s} (hs : s ∈ (after steps).get scope) =>
      ih (fun e he => hsteps e (List.mem_append_left _ he))
        (fun e he => hw e (List.mem_append_left _ he)) hs
    have hsound := sound_after steps (fun e he => hw e (List.mem_append_left _ he)) scope
    obtain ⟨c, hdc⟩ := hsteps d (by simp)
    have hstep := ht
    rw [after_append, call_get] at hstep
    rw [mem_sources_step hsound hdc hstep]
    constructor
    · rintro (⟨u, hu, hk, hf⟩ | ⟨s, hs, hk, hf⟩)
      · exact ⟨u, brought_append.mpr ⟨Or.inl hu, t, ht, hk.symm⟩, hk, hf⟩
      · obtain ⟨u, hb, hku, hf⟩ := (ih hs).mp hf
        exact ⟨u, brought_append.mpr ⟨Or.inr hb, t, ht, (hku.trans hk).symm⟩, hku.trans hk, hf⟩
    · rintro ⟨u, hb, hk, hf⟩
      rcases (brought_append.mp hb).1 with hu | hb
      · exact Or.inl ⟨u, hu, hk, hf⟩
      · obtain ⟨s, hs, hks⟩ := hb.stands
        exact Or.inr ⟨s, hs, hks.trans hk, (ih hs).mpr ⟨u, hb, hks.symm, hf⟩⟩

/-- What a part came with last was brought: the part keeps the task in being. -/
theorem brought_latest (hw : ∀ d ∈ steps, d.WellFormed) (h : latest scope p steps = some u) :
    Brought scope steps u := by
  induction steps using List.reverseRecOn with
  | nil => cases h
  | append_singleton steps d ih =>
    obtain ⟨t, ht, -, hk, -⟩ := (reflects_after _ hw scope).placed p u h
    refine brought_append.mpr ⟨?_, t, ht, hk⟩
    by_cases hm : d.mentions scope p = []
    · rw [latest_append_of_quiet hm] at h
      exact Or.inr (ih (fun e he => hw e (List.mem_append_left _ he)) h)
    · rw [latest_append_of_mentioned hm] at h
      exact Or.inl (mem_mentions.mp (List.mem_of_getLast? (Option.join_eq_some_iff.mp h))).1

/-! ### Leftovers -/

/-- A member's latest task has this source. -/
def Needed (scope : Scope) (calls : List MergerCall) (t : Task) (f : FileId) : Prop :=
  ∃ p ∈ t.members, ∃ u ∈ latest scope p calls, f ∈ u.sources

instance (scope : Scope) (calls : List MergerCall) (t : Task) (f : FileId) :
    Decidable (Needed scope calls t f) :=
  inferInstanceAs (Decidable (∃ p ∈ _, ∃ u ∈ _, _))

variable {W : Type} [World W]

/-- A merger that is begun anew with each part's latest task has the same members under the same
keys, and the sources that are needed and no others. -/
theorem sources_anew (hw : ∀ c ∈ calls, c.WellFormed) (ht : t ∈ (after calls).get scope)
    {others : List MergerCall} (ho : ∀ c ∈ others, c.WellFormed)
    (hsame : ∀ p, others.flatMap (MergerCall.mentions scope p) =
      (latest scope p calls).toList.map some) :
    ∃ t' ∈ (after others).get scope, t'.mergeKey = t.mergeKey ∧
      (∀ p, p ∈ t'.members ↔ p ∈ t.members) ∧ ∀ f, f ∈ t'.sources ↔ Needed scope calls t f := by
  have hr := reflects_after calls hw scope
  have hr' := reflects_after others ho scope
  have hlatest : ∀ p, latest scope p others = latest scope p calls := by
    intro p
    rw [latest, hsame]
    cases latest scope p calls <;> rfl
  obtain ⟨p₀, hp₀⟩ := List.exists_mem_of_ne_nil _ (hr.sound.inhabited t ht)
  obtain ⟨u₀, hu₀, hk₀⟩ := (hr.mem_members ht).mp hp₀
  obtain ⟨t', ht', -, hk', -⟩ := hr'.placed p₀ u₀ ((hlatest p₀).trans hu₀)
  have hkey : t'.mergeKey = t.mergeKey := hk'.trans hk₀
  have hmembers : ∀ p, p ∈ t'.members ↔ p ∈ t.members := by
    intro p
    rw [hr'.mem_members ht', hr.mem_members ht, hlatest, hkey]
  refine ⟨t', ht', hkey, hmembers, fun f => ?_⟩
  have hwsteps := wellFormed_steps ho
  rw [← after_steps] at ht'
  rw [mem_sources (fun d hd => (List.mem_flatMap.mp hd).imp fun c hc => hc.2) hwsteps ht']
  constructor
  · rintro ⟨u, ⟨before, d, later, he, hu, -⟩, hk, hf⟩
    have hd : d ∈ others.flatMap MergerCall.steps := he ▸ by simp
    obtain ⟨c, hc, hdc⟩ := List.mem_flatMap.mp hd
    -- whoever it was handed in for has it as the latest task
    obtain ⟨p, hp⟩ := List.exists_mem_of_ne_nil _ (hwsteps d hd scope u hu).1
    have hmention : some u ∈ others.flatMap (MergerCall.mentions scope p) :=
      List.mem_flatMap.mpr ⟨c, hc, mem_mentions.mpr ⟨submitted_steps hdc hu, hp⟩⟩
    have hup : latest scope p calls = some u := by simpa [hsame] using hmention
    exact ⟨p, (hr.mem_members ht).mpr ⟨u, hup, hk.trans hkey⟩, u, hup, hf⟩
  · rintro ⟨p, hp, u, hu, hf⟩
    have hup : latest scope p (others.flatMap MergerCall.steps) = some u := by
      rw [latest_steps, hlatest]
      exact hu
    obtain ⟨v, hv, hk⟩ := (hr.mem_members ht).mp hp
    obtain rfl := Option.some.inj (hv.symm.trans hu)
    exact ⟨v, brought_latest hwsteps hup, hk.trans hkey.symm, hf⟩

/-- The sources of a merged task are those of the tasks handed in under its key since it came to be.
They are needed as long as one of these tasks is the latest one of a part it came for. A merger that is
begun anew with each part's latest task has the needed ones alone. Where no file that was brought
differs, and the header to build upon does not, the fingerprint is the same; every source that differs
counts, be it needed or left over. -/
theorem sources_since (calls : List MergerCall) (hw : ∀ c ∈ calls, c.WellFormed) (scope : Scope) :
    let brought := Brought scope (calls.flatMap MergerCall.steps)
    ∀ t ∈ (after calls).get scope,
      (∀ f, f ∈ t.sources ↔ ∃ u, brought u ∧ u.mergeKey = t.mergeKey ∧ f ∈ u.sources) ∧
      (∀ f, Needed scope calls t f ↔ ∃ u, brought u ∧ u.mergeKey = t.mergeKey ∧ f ∈ u.sources ∧
        ∃ p ∈ u.members, latest scope p calls = some u) ∧
      (∀ others : List MergerCall, (∀ c ∈ others, c.WellFormed) →
        (∀ p, others.flatMap (MergerCall.mentions scope p) =
          (latest scope p calls).toList.map some) →
        ∃ t' ∈ (after others).get scope, t'.mergeKey = t.mergeKey ∧
          (∀ p, p ∈ t'.members ↔ p ∈ t.members) ∧ ∀ f, f ∈ t'.sources ↔ Needed scope calls t f) ∧
      ∀ (files : FileTable) (v w : W) (base : Option FilePath),
        ((∀ u, brought u → u.mergeKey = t.mergeKey → ∀ f ∈ u.sources, ∀ path,
            files.path? f = some path → World.modified? v ⟨path⟩ = World.modified? w ⟨path⟩) →
          (∀ path, base = some path → World.modified? v path = World.modified? w path) →
          Build.fingerprint ⟨v, files⟩ scope t base = Build.fingerprint ⟨w, files⟩ scope t base) ∧
        (t.Known files →
          Apart (Build.digested files v scope t base ++ Build.digested files w scope t base) →
          (∀ e ∈ (Build.surroundings ⟨v, files⟩ t base).files ++
            (Build.surroundings ⟨w, files⟩ t base).files, ∀ s, e.2 = some s → Build.Unspelled s) →
          ∀ f ∈ t.sources, ∀ path, files.path? f = some path →
            World.modified? v ⟨path⟩ ≠ World.modified? w ⟨path⟩ →
            Build.fingerprint ⟨v, files⟩ scope t base ≠
              Build.fingerprint ⟨w, files⟩ scope t base) := by
  intro brought t ht
  have hr := reflects_after calls hw scope
  have hwsteps := wellFormed_steps hw
  have hsources : ∀ f, f ∈ t.sources ↔
      ∃ u, brought u ∧ u.mergeKey = t.mergeKey ∧ f ∈ u.sources := fun f =>
    mem_sources (fun d hd => (List.mem_flatMap.mp hd).imp fun c hc => hc.2) hwsteps
      (after_steps calls ▸ ht)
  refine ⟨hsources, fun f => ?_, fun others ho hsame => sources_anew hw ht ho hsame,
    fun files v w base => ⟨fun hstamps hbase => ?_, ?_⟩⟩
  · constructor
    · rintro ⟨p, hp, u, hu, hf⟩
      obtain ⟨v, hv, hk⟩ := (hr.mem_members ht).mp hp
      obtain rfl := Option.some.inj (hv.symm.trans hu)
      obtain ⟨c, -, -, hpu⟩ := latest_submitted hv
      exact ⟨v, brought_latest hwsteps ((latest_steps calls).trans hv), hk, hf, p, hpu, hv⟩
    · rintro ⟨u, -, hk, hf, p, -, hu⟩
      exact ⟨p, (hr.mem_members ht).mpr ⟨u, hu, hk⟩, u, hu, hf⟩
  · refine Build.fingerprint_of_stamps (fun f hf path hpath => ?_) hbase
    obtain ⟨u, hb, hk, hfu⟩ := (hsources f).mp hf
    exact hstamps u hb hk f hfu path hpath
  · intro hknown hapart hunspelled f hf path hpath hne
    rw [List.forall_mem_append] at hunspelled
    exact Build.fingerprint_ne_of_stamp hknown hapart hunspelled.1 hunspelled.2 hf hpath hne

/-! Two parts share a header; one of them includes a second one, and is removed. -/

def sharer (id : PartId) (d : Dependency) : TaskSet := Part.tasks ⟨id, .default, [], []⟩ d

def sharedOnly : Dependency := ⟨[⟨⟨0⟩, .topSystemInclude, 1⟩], [], [], []⟩

def sharedAndOwn : Dependency :=
  ⟨[⟨⟨0⟩, .topSystemInclude, 1⟩, ⟨⟨1⟩, .systemInclude, 2⟩], [], [], []⟩

def departed : List MergerCall :=
  [.merge [sharer "a" sharedAndOwn, sharer "b" sharedOnly] [], .remove ["a"]]

/-- The shared task keeps a source that none of its members' latest tasks has, and that a merger begun
anew does not have. -/
theorem sources_outlive_members :
    (¬ ∀ t ∈ (after departed).get .system, ∀ f ∈ t.sources, Needed .system departed t f) ∧
    ((after departed).get .system).map Task.sources ≠
      ((after [.merge [sharer "b" sharedOnly] []]).get .system).map Task.sources := by
  decide

theorem sources_since_departed : (∀ c ∈ departed, c.WellFormed) ∧
    ∃ t ∈ (after departed).get .system, ⟨1⟩ ∈ t.sources ∧ ¬ Needed .system departed t ⟨1⟩ ∧
      ∃ u, Brought .system (departed.flatMap MergerCall.steps) u ∧ ⟨1⟩ ∈ u.sources := by
  have hw : ∀ c ∈ departed, c.WellFormed := by decide
  have hleft : ∃ t ∈ (after departed).get .system,
      (⟨1⟩ : FileId) ∈ t.sources ∧ ¬ Needed .system departed t ⟨1⟩ := by decide
  obtain ⟨t, ht, hf, hneeded⟩ := hleft
  obtain ⟨u, hu, -, hfu⟩ := ((sources_since (W := WritingBench) departed hw .system t ht).1 ⟨1⟩).mp hf
  exact ⟨hw, t, ht, hf, hneeded, u, hu, hfu⟩

end Merger
end PrecompiledHeaders
