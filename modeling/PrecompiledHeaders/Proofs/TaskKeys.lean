import PrecompiledHeaders.Proofs.Json.RoundTrip
import PrecompiledHeaders.Task
/-! What a task key stands for. The text under the digest determines the scope and the merge key,
so two keys can agree by accident only where the digest itself collides. -/
namespace PrecompiledHeaders

/-! ### Written settings -/

theorem MacroDefinition.toJson_injective : Function.Injective MacroDefinition.toJson := by
  rintro ⟨n, v, o⟩ ⟨n', v', o'⟩ h
  simpa [MacroDefinition.toJson, Json.ofNat, Int.natCast_inj] using h

theorem SearchPathKind.text_injective : Function.Injective SearchPathKind.text := by
  intro a b h
  cases a <;> cases b <;> first | rfl | (revert h; decide)

theorem SearchPath.toJson_injective : Function.Injective SearchPath.toJson := by
  rintro ⟨p, i, k⟩ ⟨p', i', k'⟩ h
  simp only [SearchPath.toJson, Json.ofNat, Json.object.injEq, List.cons.injEq, Prod.mk.injEq,
    Json.text.injEq, Json.int.injEq, Int.natCast_inj, true_and, and_true] at h
  obtain ⟨rfl, rfl, hk⟩ := h
  rw [SearchPathKind.text_injective hk]

theorem Language.text_injective : Function.Injective Language.text := by
  intro a b h
  cases a <;> cases b <;> first | rfl | (revert h; decide)

theorem LanguageVersion.text_injective : Function.Injective LanguageVersion.text := by
  intro a b h
  cases a <;> cases b <;> first | rfl | (revert h; decide)

theorem Extensions.toJson_injective : Function.Injective Extensions.toJson := by
  rintro ⟨a, b, c, d, e⟩ ⟨a', b', c', d', e'⟩ h
  simpa [Extensions.toJson] using h

theorem Settings.eq_of_fields {s s' : Settings} (ht : s.toolchainField = s'.toolchainField)
    (hm : s.macrosField = s'.macrosField) (hp : s.pathFields = s'.pathFields)
    (hl : s.languageFields = s'.languageFields) : s = s' := by
  obtain ⟨ta, ms, sp, pp, l, v, e⟩ := s
  obtain ⟨ta', ms', sp', pp', l', v', e'⟩ := s'
  simp only [toolchainField, macrosField, pathFields, languageFields, Json.ofTexts, List.cons.injEq,
    Prod.mk.injEq, Json.list.injEq, Json.text.injEq, true_and, and_true] at ht hm hp hl
  have htext : Function.Injective Json.text := fun _ _ ht => Json.text.inj ht
  obtain ⟨hsp, hpp⟩ := hp
  obtain ⟨hl, hv, he⟩ := hl
  rw [List.map_injective_iff.mpr htext ht,
    List.map_injective_iff.mpr MacroDefinition.toJson_injective hm,
    List.map_injective_iff.mpr SearchPath.toJson_injective hsp,
    List.map_injective_iff.mpr SearchPath.toJson_injective hpp,
    Language.text_injective hl, LanguageVersion.text_injective hv,
    Extensions.toJson_injective he]

theorem MergeKey.toJson_injective : Function.Injective MergeKey.toJson := by
  rintro ⟨is, s⟩ ⟨is', s'⟩ h
  have hfile : Function.Injective fun f : FileId => Json.ofNat f.index := by
    rintro ⟨i⟩ ⟨j⟩ hij
    simpa [Json.ofNat, Int.natCast_inj] using hij
  simp only [toJson, Settings.pathFields, Settings.languageFields, List.cons_append,
    List.nil_append, Json.object.injEq, List.cons.injEq, and_true] at h
  obtain ⟨ht, hi, hm, hsp, hpp, hl, hv, he⟩ := h
  rw [List.map_injective_iff.mpr hfile (Json.list.inj (Prod.mk.inj hi).2),
    Settings.eq_of_fields ht hm (by simp only [Settings.pathFields, hsp, hpp])
      (by simp only [Settings.languageFields, hl, hv, he])]

theorem MergeKey.plain_toJson (k : MergeKey) : k.toJson.Plain := by
  simp [MergeKey.toJson, Settings.toolchainField, Settings.macrosField, Settings.pathFields,
    Settings.languageFields, Json.ofTexts, Json.ofNat, MacroDefinition.toJson, SearchPath.toJson,
    Extensions.toJson]

/-! ### Keys -/

namespace Task

theorem keyText_injective {s s' : Scope} {k k' : MergeKey} (h : keyText s k = keyText s' k') :
    s = s' ∧ k = k' := by
  have hs : s = s' := by
    have := congrArg (fun t => t.toList.head?) h
    cases s <;> cases s' <;> first | rfl | (simp [keyText, Scope.text] at this)
  subst s'
  refine ⟨rfl, MergeKey.toJson_injective (Json.compact_injective k.plain_toJson k'.plain_toJson ?_)⟩
  simpa [keyText] using h

end Task

/-- The digest tells the texts apart. There are more texts than digests, so this can hold of the
texts that come up in a run, but not of all texts. -/
def CollisionFree (texts : List String) : Prop :=
  ∀ x ∈ texts, ∀ y ∈ texts, digestText x = digestText y → x = y

instance (texts : List String) : Decidable (CollisionFree texts) :=
  inferInstanceAs (Decidable (∀ x ∈ texts, ∀ y ∈ texts, digestText x = digestText y → x = y))

theorem CollisionFree.mono {xs ys : List String} (h : CollisionFree ys) (hs : xs ⊆ ys) :
    CollisionFree xs := fun x hx y hy => h x (hs hx) y (hs hy)

theorem CollisionFree.key_inj {texts : List String} (h : CollisionFree texts) {t u : Task}
    {s s' : Scope} (ht : Task.keyText s t.mergeKey ∈ texts)
    (hu : Task.keyText s' u.mergeKey ∈ texts) (hk : t.key s = u.key s') :
    s = s' ∧ t.mergeKey = u.mergeKey :=
  Task.keyText_injective (h _ ht _ hu (TaskKey.mk.inj hk))

end PrecompiledHeaders
