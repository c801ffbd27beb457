import PrecompiledHeaders.Split
/-! What the two tasks of a part are made of: the part is their only member, and they name no file
that the dependency does not include. -/
namespace PrecompiledHeaders

namespace Split

/-- Both tasks belong to the part, and name only some of these files. -/
def Within (id : PartId) (files : List FileId) (s : Split) : Prop :=
  ∀ scope, (s.tasks.get scope).members = [id] ∧
    (s.tasks.get scope).includes ++ (s.tasks.get scope).sources ⊆ files

variable {id : PartId} {files : List FileId} {s : Split}

theorem Within.modify (h : Within id files s) (scope : Scope) {f : Task → Task}
    (hm : ∀ t, (f t).members = t.members)
    (hf : ∀ t : Task, t.includes ++ t.sources ⊆ files → (f t).includes ++ (f t).sources ⊆ files)
    (seen : List FileId) (roles : List (Nat × IncludeRole)) :
    Within id files ⟨s.tasks.modify scope f, seen, roles⟩ := by
  intro scope'
  by_cases hs : scope = scope'
  · subst hs
    simp only [PerScope.get_modify_self]
    exact ⟨(hm _).trans (h scope).1, hf _ (h scope).2⟩
  · simp only [PerScope.modify, PerScope.get_set_of_ne _ hs]
    exact h scope'

theorem Within.addInclude (h : Within id files s) {e : IncludeEntry} (he : e.file ∈ files) :
    Within id files (s.addInclude e) := by
  rw [Split.addInclude]
  split
  · exact h
  · cases e.role.scope? with
    | none => exact h
    | some scope =>
      refine h.modify scope (fun t => ?_) (fun t ht => ?_) _ _
      · rw [addFile]
        split <;> rfl
      · have hsources : (t.addSources [e.file]).sources ⊆ files := by
          intro f hf
          rcases Task.mem_appendNew.mp hf with hf | hf
          · exact ht (List.mem_append_right _ hf)
          · exact List.mem_singleton.mp hf ▸ he
        have hincludes : t.includes ⊆ files := fun f hf => ht (List.mem_append_left _ hf)
        rw [addFile]
        split
        · exact List.append_subset.mpr ⟨List.append_subset.mpr
            ⟨hincludes, by simpa using he⟩, hsources⟩
        · exact List.append_subset.mpr ⟨hincludes, hsources⟩

theorem Within.addMacro (h : Within id files s) (part : Part) (m : UsedMacro) :
    Within id files (Split.addMacro part s m) := by
  rw [Split.addMacro]
  split
  · rename_i scope _
    have hsame : ∀ t : Task, (addUsed part m t).members = t.members ∧
        (addUsed part m t).includes = t.includes ∧ (addUsed part m t).sources = t.sources := by
      intro t
      rw [addUsed]
      split
      · exact ⟨rfl, rfl, rfl⟩
      · dsimp only
        split <;> exact ⟨rfl, rfl, rfl⟩
    refine h.modify scope (fun t => (hsame t).1) (fun t ht => ?_) _ _
    rw [(hsame t).2.1, (hsame t).2.2]
    exact ht
  · exact h

end Split

theorem Part.tasks_within (part : Part) (d : Dependency) (scope : Scope) :
    ((part.tasks d).get scope).members = [part.id] ∧
      ((part.tasks d).get scope).includes ++ ((part.tasks d).get scope).sources ⊆
        d.includes.map (·.file) := by
  have hstart : Split.Within part.id (d.includes.map (·.file)) (Split.start part) := by
    intro scope
    cases scope <;> exact ⟨rfl, List.nil_subset _⟩
  have hincludes : ∀ es ⊆ d.includes, ∀ s, Split.Within part.id (d.includes.map (·.file)) s →
      Split.Within part.id (d.includes.map (·.file)) (es.foldl Split.addInclude s) := by
    intro es
    induction es with
    | nil => exact fun _ s hs => hs
    | cons e es ih =>
      intro hes s hs
      exact ih (fun _ h => hes (List.mem_cons_of_mem _ h)) _
        (hs.addInclude (List.mem_map_of_mem (hes List.mem_cons_self)))
  have hmacros : ∀ (ms : List UsedMacro) (s : Split), Split.Within part.id (d.includes.map (·.file)) s →
      Split.Within part.id (d.includes.map (·.file)) (ms.foldl (Split.addMacro part) s) := by
    intro ms
    induction ms with
    | nil => exact fun s hs => hs
    | cons m ms ih => exact fun s hs => ih _ (hs.addMacro part m)
  exact hmacros d.usedMacros _ (hincludes d.includes (fun _ h => h) _ hstart) scope

end PrecompiledHeaders
