import PrecompiledHeaders.Proofs.Merger.Settled
/-! Handing in what is there already. A part that comes with the task it came with last stays where it
is, nobody leaves, and the queue is told to build the tasks of such parts once more. -/
namespace PrecompiledHeaders.Merger

variable {ts : List Task} {latest : PartId → Option Task} {scope : Scope} {u : Task}

/-- Whose latest task this is has no reason to leave, and nothing to bring. -/
theorem Reflects.settled (h : Reflects ts latest) (hne : u.members ≠ [])
    (hu : ∀ p ∈ u.members, latest p = some u) : Settled u ts := by
  refine ⟨h.sound.inhabited, ?_, ?_⟩
  · intro t ht p hp hpt
    obtain ⟨v, hv, hkey, _⟩ := h.owner ht hpt
    obtain rfl := Option.some.inj ((hu p hp).symm.trans hv)
    exact hkey
  · obtain ⟨p, hp⟩ := List.exists_mem_of_ne_nil _ hne
    obtain ⟨t, ht, _, hkey, hsources⟩ := h.placed p u (hu p hp)
    refine ⟨t, host?_of_mem h.sound.keys ht hkey, fun p' hp' => ?_, hsources⟩
    obtain ⟨t', ht', hpt', hkey', _⟩ := h.placed p' u (hu p' hp')
    exact eq_of_mergeKey h.sound.keys ht' ht (hkey'.trans hkey.symm) ▸ hpt'

/-- In every set the scope's task is the latest one of its members. -/
def Repeats (scope : Scope) (latest : PartId → Option Task) (sets : List TaskSet)
    (extra : List String) : Prop :=
  ∀ u ∈ (MergerCall.merge sets extra).submitted scope,
    u.members ≠ [] ∧ u.members.Nodup ∧ ∀ p ∈ u.members, latest p = some u

theorem Reflects.repeats_settled (h : Reflects ts latest) {sets : List TaskSet}
    {extra : List String} (hr : Repeats scope latest sets extra) :
    ∀ u ∈ (MergerCall.merge sets extra).submitted scope, Settled u ts := fun u hu =>
  h.settled (hr u hu).1 (hr u hu).2.2

/-- The tasks of those that are handed in again are told to be built, each once. -/
theorem Reflects.renewed_again (h : Reflects ts latest) {sets : List TaskSet}
    {extra : List String} (hr : Repeats scope latest sets extra) (ha : KeysApart scope ts) :
    let renew := renewed scope ts (Merger.mergeAll scope extra sets ts .none).2
    renew.Nodup ∧ ∀ t, t ∈ renew ↔
      t ∈ ts ∧ ∃ u ∈ (MergerCall.merge sets extra).submitted scope, ∃ p ∈ u.members, p ∈ t.members := by
  intro renew
  have hsame : (Merger.mergeAll scope extra sets ts .none).1 = ts := by
    rw [mergeAll_of_settled (h.repeats_settled hr)]
  have hwell : ∀ u ∈ (MergerCall.merge sets extra).submitted scope,
      u.members ≠ [] ∧ u.members.Nodup := fun u hu => ⟨(hr u hu).1, (hr u hu).2.1⟩
  have htracks := (tracks_refl scope ts).mergeAll h.sound hwell
  rw [hsame] at htracks
  have hturn : Turn scope ts ts (Merger.mergeAll scope extra sets ts .none).2 := by
    refine ⟨h.sound, h.sound, htracks, fun t ht t' ht' => ?_⟩
    rw [List.mem_append, or_self_iff] at ht ht'
    exact ha t ht t' ht'
  refine ⟨hturn.nodup_renewed.of_map, fun t => ?_⟩
  rw [hturn.mem_renewed, mem_added_mergeAll]
  refine and_congr_right fun ht => ?_
  constructor
  · rintro (hnone | ⟨u, hu, hkey⟩)
    · exact absurd hnone List.not_mem_nil
    · obtain ⟨hne, _, hlatest⟩ := hr u hu
      obtain ⟨p, hp⟩ := List.exists_mem_of_ne_nil _ hne
      obtain ⟨t', ht', hpt', hkey', _⟩ := h.placed p u (hlatest p hp)
      obtain rfl := hturn.eq_now ht' ht ((Task.key_eq_of_mergeKey hkey' scope).trans hkey)
      exact ⟨u, hu, p, hp, hpt'⟩
  · rintro ⟨u, hu, p, hp, hpt⟩
    obtain ⟨v, hv, hkey, _⟩ := h.owner ht hpt
    obtain rfl := Option.some.inj (((hr u hu).2.2 p hp).symm.trans hv)
    exact .inr ⟨u, hu, Task.key_eq_of_mergeKey hkey.symm scope⟩

/-- A call that says what was said before leaves the tasks as they are, and tells the queue of
nothing but tasks to build. -/
theorem merge_repeated {m : Merger} {latest : Scope → PartId → Option Task}
    (h : ∀ s, Reflects (m.get s) (latest s)) {sets : List TaskSet} {extra : List String}
    (hr : ∀ s, Repeats s (latest s) sets extra) :
    m.call (.merge sets extra) = (m, Scope.all.flatMap fun s =>
      builds s (renewed s (m.get s) (mergeAll s extra sets (m.get s) .none).2)) :=
  call_of_settled fun s => (h s).repeats_settled (hr s)

end PrecompiledHeaders.Merger
