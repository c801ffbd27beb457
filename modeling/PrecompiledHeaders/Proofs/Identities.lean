import PrecompiledHeaders.Proofs.Trials
/-! The two names of a task. A key names it within one run, by the numbers of its files; the content
digest names it across runs, by their paths. Both stand for the scope and the merge key alone, so the
queue, which compares keys, and the merger, which compares merge keys, mean the same tasks. -/
namespace PrecompiledHeaders

theorem CollisionFree.digestText_eq_iff {texts : List String} (h : CollisionFree texts)
    {x y : String} (hx : x ∈ texts) (hy : y ∈ texts) : digestText x = digestText y ↔ x = y :=
  ⟨h x hx y hy, fun he => by rw [he]⟩

namespace Task

open Merger (headerTask)

variable {a b t : Task} {s s' : Scope} {files others : FileTable}

theorem keyText_eq_iff {k k' : MergeKey} : keyText s k = keyText s' k' ↔ s = s' ∧ k = k' :=
  ⟨keyText_injective, fun ⟨hs, hk⟩ => by rw [hs, hk]⟩

theorem contentText_eq_iff : a.contentText s files = b.contentText s' others ↔
    s = s' ∧ files.names a.includes = others.names b.includes ∧ a.settings = b.settings := by
  constructor
  · intro h
    exact contentJson_inj (Json.compact_injective (plain_contentJson _ _ _)
      (plain_contentJson _ _ _) h)
  · rintro ⟨rfl, hnames, hsettings⟩
    rw [contentText, contentText, hnames, hsettings]

theorem contentDigest_of_knows (h : files.Knows t.includes) :
    t.contentDigest s files = .ok (digestText (t.contentText s files)) := by
  rw [contentDigest, h.resolveAll]
  rfl

/-- In one table paths say as much as numbers. -/
theorem names_and_settings_iff (ha : files.Knows a.includes) (hb : files.Knows b.includes) :
    files.names a.includes = files.names b.includes ∧ a.settings = b.settings ↔
      a.mergeKey = b.mergeKey := by
  rw [mergeKey, mergeKey, MergeKey.mk.injEq]
  refine and_congr_left fun _ => ⟨ha.names_inj hb, fun h => ?_⟩
  rw [h]

/-- The texts that are digested to name a task. -/
def identityTexts (t : Task) (s : Scope) (files : FileTable) : List String :=
  [keyText s t.mergeKey, t.contentText s files]

/-- Keys agree exactly on tasks of one scope and one merge key. Tasks with known files have content
digests, which agree exactly if scopes, paths and settings do; in one table that is where keys agree.
Members, sources, used macros and the numbers of the files never matter. -/
theorem identities_agree (a b : Task) (s s' : Scope) (files others : FileTable)
    (h : CollisionFree (a.identityTexts s files ++ b.identityTexts s' others)) :
    (a.key s = b.key s' ↔ s = s' ∧ a.mergeKey = b.mergeKey) ∧
    (files.Knows a.includes → others.Knows b.includes → ∃ x y,
      a.contentDigest s files = .ok x ∧ b.contentDigest s' others = .ok y ∧
      (x = y ↔ s = s' ∧ files.names a.includes = others.names b.includes ∧
        a.settings = b.settings) ∧
      (others = files → (x = y ↔ s = s' ∧ a.mergeKey = b.mergeKey))) ∧
    ∀ (t : Task) (table : FileTable), files.Knows a.includes → table.Knows t.includes →
      table.names t.includes = files.names a.includes → t.settings = a.settings →
      t.contentDigest s table = a.contentDigest s files := by
  refine ⟨?_, fun ha hb => ?_, fun t table ha ht hnames hsettings => ?_⟩
  · have hkeys := h.digestText_eq_iff (x := keyText s a.mergeKey) (y := keyText s' b.mergeKey)
      (by simp [identityTexts]) (by simp [identityTexts])
    rw [key, key, TaskKey.mk.injEq, hkeys, keyText_eq_iff]
  · have hcontents := h.digestText_eq_iff (x := a.contentText s files)
      (y := b.contentText s' others) (by simp [identityTexts]) (by simp [identityTexts])
    refine ⟨_, _, contentDigest_of_knows ha, contentDigest_of_knows hb, ?_, ?_⟩
    · rw [hcontents, contentText_eq_iff]
    · rintro rfl
      rw [hcontents, contentText_eq_iff, names_and_settings_iff ha hb]
  · rw [contentDigest_of_knows ht, contentDigest_of_knows ha,
      contentText_eq_iff.mpr ⟨rfl, hnames, hsettings⟩]

/-- The same header under another number, for another part that reads one more file. -/
def renumbered : Task := { headerTask ["b"] 1 with sources := [⟨0⟩, ⟨1⟩] }

def secondTable : FileTable := ⟨["/z.h", "/a.h"], by decide⟩

theorem renumbered_collisionFree : CollisionFree
    ((headerTask ["a"] 0).identityTexts .system filesA ++
      renumbered.identityTexts .system secondTable) := by
  have hcontent : renumbered.contentText .system secondTable =
      (headerTask ["a"] 0).contentText .system filesA := by
    rw [contentText_eq_iff]
    decide
  have hdigests : ([keyText .system (headerTask ["a"] 0).mergeKey,
      (headerTask ["a"] 0).contentText .system filesA,
      keyText .system (headerTask ["b"] 1).mergeKey].map digestText).Nodup := by
    have hcontentA : digestText ((headerTask ["a"] 0).contentText .system filesA) = _ :=
      evaluated.contentA
    rw [List.map_cons, List.map_cons, List.map_cons, hcontentA, digestText, evaluated.keyA, digestText,
      evaluated.keyB]
    decide
  have hthree : ∀ k c k' : String, [k, c] ++ [k', c] ⊆ [k, c, k'] := fun _ _ _ => by simp
  rw [identityTexts, identityTexts, hcontent]
  exact CollisionFree.mono (List.inj_on_of_nodup_map hdigests) (hthree _ _ _)

theorem identities_agree_renumbered :
    CollisionFree ((headerTask ["a"] 0).identityTexts .system filesA ++
      renumbered.identityTexts .system secondTable) ∧
    (headerTask ["a"] 0).key .system ≠ renumbered.key .system ∧
    ∃ x, (headerTask ["a"] 0).contentDigest .system filesA = .ok x ∧
      renumbered.contentDigest .system secondTable = .ok x := by
  obtain ⟨hkeys, hcontents, _⟩ := identities_agree (headerTask ["a"] 0) renumbered .system .system
    filesA secondTable renumbered_collisionFree
  refine ⟨renumbered_collisionFree, fun h => ?_, ?_⟩
  · exact absurd (congrArg MergeKey.includes (hkeys.mp h).2)
      (show ([⟨0⟩] : List FileId) ≠ [⟨1⟩] by decide)
  · obtain ⟨x, y, hx, hy, hiff, _⟩ := hcontents
      (FileTable.knows_iff.mpr ⟨["/a.h"], .cons (by decide) .nil⟩)
      (FileTable.knows_iff.mpr ⟨["/a.h"], .cons (by decide) .nil⟩)
    obtain rfl := hiff.mpr ⟨rfl, by decide, rfl⟩
    exact ⟨x, hx, hy⟩

end Task
end PrecompiledHeaders
