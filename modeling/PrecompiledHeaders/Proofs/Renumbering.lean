import PrecompiledHeaders.Split
import PrecompiledHeaders.Proofs.FileTable
import PrecompiledHeaders.Proofs.Merger.Grouping
import Mathlib.Data.List.Forall2
/-! The same files under other numbers. Numbers are compared with one another and nothing else, so
the tasks of a part come out alike whatever numbers its files have, and are merged alike. -/
namespace PrecompiledHeaders

open Relator (BiUnique)

namespace FileTable

variable {t u t' u' : FileTable} {is js : List FileId} {ps : List String}

/-- Both numbers stand for one path. -/
def Same (t u : FileTable) (i j : FileId) : Prop := ∃ p, t.path? i = some p ∧ u.path? j = some p

theorem biUnique_same (t u : FileTable) : BiUnique (Same t u) := by
  constructor
  · rintro i j k ⟨p, hi, hk⟩ ⟨q, hj, hk'⟩
    obtain rfl : p = q := Option.some.inj (hk.symm.trans hk')
    exact path?_inj hi hj
  · rintro i j k ⟨p, hi, hj⟩ ⟨q, hi', hk⟩
    obtain rfl : p = q := Option.some.inj (hi.symm.trans hi')
    exact path?_inj hj hk

theorem Same.extends {i j : FileId} (h : Same t u i j) (ht : t'.Extends t) (hu : u'.Extends u) :
    Same t' u' i j :=
  h.imp fun _ hp => ⟨ht.path? hp.1, hu.path? hp.2⟩

theorem Resolves.same (h : t.Resolves is ps) (k : u.Resolves js ps) :
    List.Forall₂ (Same t u) is js := by
  induction h generalizing js with
  | nil =>
    obtain rfl := List.forall₂_nil_right_iff.mp k
    exact .nil
  | cons hp _ ih =>
    obtain ⟨j, rest, hj, hrest, rfl⟩ := List.forall₂_cons_right_iff.mp k
    exact .cons ⟨_, hp, hj⟩ (ih hrest)

theorem resolves_of_same (h : List.Forall₂ (Same t u) is js) :
    ∃ ps, t.Resolves is ps ∧ u.Resolves js ps := by
  induction h with
  | nil => exact ⟨[], .nil, .nil⟩
  | cons hp _ ih =>
    obtain ⟨p, hi, hj⟩ := hp
    obtain ⟨ps, his, hjs⟩ := ih
    exact ⟨p :: ps, .cons hi his, .cons hj hjs⟩

theorem names_of_same (h : List.Forall₂ (Same t u) is js) : u.names js = t.names is := by
  obtain ⟨ps, his, hjs⟩ := resolves_of_same h
  rw [his.names, hjs.names]

theorem knows_of_same (h : List.Forall₂ (Same t u) is js) : u.Knows js := by
  obtain ⟨ps, _, hjs⟩ := resolves_of_same h
  exact knows_iff.mpr ⟨ps, hjs⟩

/-- In one table there is nothing to tell apart. -/
theorem eq_of_same (h : List.Forall₂ (Same t t) is js) : is = js := by
  obtain ⟨ps, his, hjs⟩ := resolves_of_same h
  exact his.inj hjs

end FileTable

open FileTable (Same biUnique_same)

theorem Task.rel_appendNew [DecidableEq α] [DecidableEq β] {R : α → β → Prop} (hR : BiUnique R)
    {xs ys : List α} {xs' ys' : List β} (hx : List.Forall₂ R xs xs') (hy : List.Forall₂ R ys ys') :
    List.Forall₂ R (Task.appendNew xs ys) (Task.appendNew xs' ys') := by
  induction hy generalizing xs xs' with
  | nil => exact hx
  | cons hp _ ih =>
    have hmem := List.rel_mem hR hp hx
    rw [Task.appendNew, Task.appendNew]
    split <;> rename_i h
    · rw [if_pos (hmem.mp h)]
      exact ih hx
    · rw [if_neg (mt hmem.mpr h)]
      exact ih (List.rel_append hx (.cons hp .nil))

theorem forall₂_meet {α β γ : Type} {R : α → β → Prop} {S : α → γ → Prop} {as : List α}
    {bs : List β} {cs : List γ} (h : List.Forall₂ R as bs) (k : List.Forall₂ S as cs) :
    List.Forall₂ (fun c b => ∃ a ∈ as, S a c ∧ R a b) cs bs := by
  induction h generalizing cs with
  | nil =>
    obtain rfl := List.forall₂_nil_left_iff.mp k
    exact .nil
  | cons hab _ ih =>
    obtain ⟨c, rest, hac, hrest, rfl⟩ := List.forall₂_cons_left_iff.mp k
    refine .cons ⟨_, List.mem_cons_self, hac, hab⟩ ((ih hrest).imp ?_)
    rintro c b ⟨a, ha, hac, hab⟩
    exact ⟨a, List.mem_cons_of_mem _ ha, hac, hab⟩

/-! ### Tasks -/

structure Part.Alike (t u : FileTable) (p q : Part) : Prop where
  id : q.id = p.id
  settings : q.settings = p.settings
  headers : List.Forall₂ (Same t u) p.headers q.headers
  sources : List.Forall₂ (Same t u) p.sources q.sources

theorem Part.alike_refl {t : FileTable} {p : Part} (hh : t.Knows p.headers)
    (hs : t.Knows p.sources) : Part.Alike t t p p :=
  ⟨rfl, rfl, hh.resolves.same hh.resolves, hs.resolves.same hs.resolves⟩

theorem Part.Alike.extends {p q : Part} (h : Part.Alike t u p q) (hu : u'.Extends u) :
    Part.Alike t u' p q :=
  ⟨h.id, h.settings, h.headers.imp fun _ _ hs => hs.extends (FileTable.Extends.refl _) hu,
    h.sources.imp fun _ _ hs => hs.extends (FileTable.Extends.refl _) hu⟩

structure IncludeEntry.Alike (t u : FileTable) (e f : IncludeEntry) : Prop where
  file : Same t u e.file f.file
  role : f.role = e.role
  order : f.order = e.order

structure Dependency.Alike (t u : FileTable) (d e : Dependency) : Prop where
  includes : List.Forall₂ (IncludeEntry.Alike t u) d.includes e.includes
  usedMacros : e.usedMacros = d.usedMacros

structure Task.Alike (t u : FileTable) (a b : Task) : Prop where
  members : b.members = a.members
  includes : List.Forall₂ (Same t u) a.includes b.includes
  sources : List.Forall₂ (Same t u) a.sources b.sources
  usedMacros : b.usedMacros = a.usedMacros
  settings : b.settings = a.settings

def TaskSet.Alike (t u : FileTable) (a b : TaskSet) : Prop :=
  ∀ s, Task.Alike t u (a.get s) (b.get s)

variable {t u t' u' : FileTable}

theorem Task.Alike.extends {a b : Task} (h : Task.Alike t u a b) (ht : t'.Extends t)
    (hu : u'.Extends u) : Task.Alike t' u' a b :=
  ⟨h.members, h.includes.imp fun _ _ hp => hp.extends ht hu,
    h.sources.imp fun _ _ hp => hp.extends ht hu, h.usedMacros, h.settings⟩

/-- There is one task alike to a given one. -/
theorem Task.Alike.unique {a b c : Task} (h : Task.Alike t u a b) (k : Task.Alike t u a c) : b = c := by
  have hunique := (biUnique_same t u).forall₂.2
  have hincludes := hunique h.includes k.includes
  have hsources := hunique h.sources k.sources
  cases b
  cases c
  exact Task.mk.injEq .. ▸ ⟨h.members.trans k.members.symm, hincludes, hsources,
    h.usedMacros.trans k.usedMacros.symm, h.settings.trans k.settings.symm⟩

theorem Task.Alike.eq {a b : Task} (h : Task.Alike t t a b) : b = a := by
  have hincludes := (FileTable.eq_of_same h.includes).symm
  have hsources := (FileTable.eq_of_same h.sources).symm
  cases a
  cases b
  exact Task.mk.injEq .. ▸ ⟨h.members, hincludes, hsources, h.usedMacros, h.settings⟩

theorem Task.alike_of_extends {a : Task} (hu : u.Extends t) (hi : t.Knows a.includes)
    (hs : t.Knows a.sources) : Task.Alike t u a a :=
  ⟨rfl, hi.resolves.same (hu.resolves hi.resolves), hs.resolves.same (hu.resolves hs.resolves), rfl,
    rfl⟩

/-- Nor is there in a table and a later one. -/
theorem TaskSet.Alike.eq {a b : TaskSet} (h : TaskSet.Alike t u a b) (hu : u.Extends t) : b = a := by
  have hget : ∀ s, b.get s = a.get s := fun s =>
    ((h s).extends hu (FileTable.Extends.refl _)).eq
  exact congrArg₂ PerScope.mk (hget .system) (hget .project)

theorem Task.Alike.mergeKey_eq_iff {a b c d : Task} (h : Task.Alike t u a b)
    (k : Task.Alike t u c d) : a.mergeKey = c.mergeKey ↔ b.mergeKey = d.mergeKey := by
  have hincludes : a.includes = c.includes ↔ b.includes = d.includes :=
    Relator.rel_eq (biUnique_same t u).forall₂ h.includes k.includes
  rw [Task.mergeKey, Task.mergeKey, Task.mergeKey, Task.mergeKey, MergeKey.mk.injEq,
    MergeKey.mk.injEq, hincludes, h.settings, k.settings]

namespace Split

structure Alike (t u : FileTable) (a b : Split) : Prop where
  tasks : TaskSet.Alike t u a.tasks b.tasks
  seen : List.Forall₂ (Same t u) a.seen b.seen
  roles : b.roles = a.roles

variable {a b : Split} {p q : Part}

theorem alike_start (h : Part.Alike t u p q) : Alike t u (start p) (start q) := by
  refine ⟨fun s => ?_, .nil, rfl⟩
  have hempty : Task.Alike t u (emptyTask p) (emptyTask q) :=
    ⟨by rw [emptyTask, emptyTask, h.id], .nil, .nil, rfl, by rw [emptyTask, emptyTask, h.settings]⟩
  cases s <;> exact hempty

theorem alike_modify {a b : TaskSet} (h : TaskSet.Alike t u a b) (scope : Scope) {f g : Task → Task}
    (hf : ∀ x y, Task.Alike t u x y → Task.Alike t u (f x) (g y)) :
    TaskSet.Alike t u (a.modify scope f) (b.modify scope g) := by
  intro s
  by_cases hs : scope = s
  · subst hs
    rw [PerScope.get_modify_self, PerScope.get_modify_self]
    exact hf _ _ (h scope)
  · rw [PerScope.modify, PerScope.modify, PerScope.get_set_of_ne _ hs, PerScope.get_set_of_ne _ hs]
    exact h s

theorem alike_addFile {e f : IncludeEntry} (he : IncludeEntry.Alike t u e f) {x y : Task}
    (h : Task.Alike t u x y) : Task.Alike t u (addFile e x) (addFile f y) := by
  have hsources : List.Forall₂ (Same t u) (x.addSources [e.file]).sources
      (y.addSources [f.file]).sources :=
    Task.rel_appendNew (biUnique_same t u) h.sources (.cons he.file .nil)
  rw [addFile, addFile, he.role]
  split
  · exact ⟨h.members, List.rel_append h.includes (.cons he.file .nil), hsources, h.usedMacros,
      h.settings⟩
  · exact ⟨h.members, h.includes, hsources, h.usedMacros, h.settings⟩

theorem Alike.addInclude {e f : IncludeEntry} (he : IncludeEntry.Alike t u e f)
    (h : Alike t u a b) : Alike t u (a.addInclude e) (b.addInclude f) := by
  have hmem := List.rel_mem (biUnique_same t u) he.file h.seen
  rw [Split.addInclude, Split.addInclude, he.role]
  split <;> rename_i hs
  · rw [if_pos (hmem.mp hs)]
    exact h
  · rw [if_neg (mt hmem.mpr hs)]
    refine ⟨?_, .cons he.file h.seen, by rw [withRole, withRole, h.roles, he.order, he.role]⟩
    cases e.role.scope? with
    | none => exact h.tasks
    | some scope => exact alike_modify h.tasks scope fun _ _ => alike_addFile he

theorem alike_addUsed (hp : Part.Alike t u p q) (m : UsedMacro) {x y : Task}
    (h : Task.Alike t u x y) : Task.Alike t u (addUsed p m x) (addUsed q m y) := by
  rw [addUsed, addUsed, h.usedMacros, hp.settings]
  split
  · exact h
  · dsimp only
    split
    · exact ⟨h.members, h.includes, h.sources, rfl, by dsimp only; rw [h.settings]⟩
    · exact ⟨h.members, h.includes, h.sources, rfl, h.settings⟩

theorem Alike.addMacro (hp : Part.Alike t u p q) (m : UsedMacro) (h : Alike t u a b) :
    Alike t u (Split.addMacro p a m) (Split.addMacro q b m) := by
  have hscope : b.scopeOf? m = a.scopeOf? m := by rw [scopeOf?, scopeOf?, h.roles]
  rw [Split.addMacro, Split.addMacro, hscope]
  split
  · exact ⟨alike_modify h.tasks _ fun _ _ => alike_addUsed hp m, h.seen, h.roles⟩
  · exact h

end Split

theorem Part.tasks_alike {p q : Part} {d e : Dependency} (hp : Part.Alike t u p q)
    (hd : Dependency.Alike t u d e) : TaskSet.Alike t u (p.tasks d) (q.tasks e) := by
  have hincludes : Split.Alike t u (d.includes.foldl Split.addInclude (Split.start p))
      (e.includes.foldl Split.addInclude (Split.start q)) :=
    List.rel_foldl (fun _ _ h _ _ he => h.addInclude he) (Split.alike_start hp) hd.includes
  have hmacros : ∀ (ms : List UsedMacro) (a b : Split), Split.Alike t u a b →
      Split.Alike t u (ms.foldl (Split.addMacro p) a) (ms.foldl (Split.addMacro q) b) := by
    intro ms
    induction ms with
    | nil => exact fun _ _ h => h
    | cons m ms ih => exact fun a b h => ih _ _ (h.addMacro hp m)
  rw [Part.tasks, Part.tasks, hd.usedMacros]
  exact (hmacros d.usedMacros _ _ hincludes).tasks

/-! ### Merging -/

namespace Merger

theorem alike_absorb {a b c d : Task} (h : Task.Alike t u a b) (k : Task.Alike t u c d) :
    Task.Alike t u (absorb a c) (absorb b d) :=
  ⟨congrArg₂ Task.appendNew h.members k.members, h.includes,
    Task.rel_appendNew (biUnique_same t u) h.sources k.sources, h.usedMacros, h.settings⟩

theorem alike_join {a b : Task} (h : Task.Alike t u a b) {as bs : List Task}
    (hs : List.Forall₂ (Task.Alike t u) as bs) :
    List.Forall₂ (Task.Alike t u) (join a as) (join b bs) := by
  induction hs with
  | nil => exact .cons h .nil
  | cons hc hrest ih =>
    have hkey := hc.mergeKey_eq_iff h
    rw [join, join]
    split <;> rename_i hk
    · rw [if_pos (hkey.mp hk)]
      exact .cons (alike_absorb hc h) hrest
    · rw [if_neg (mt hkey.mpr hk)]
      exact .cons hc ih

theorem alike_withExtra (extra : List String) {a b : Task} (h : Task.Alike t u a b) :
    Task.Alike t u (withExtra extra a) (withExtra extra b) :=
  ⟨h.members, h.includes, h.sources, h.usedMacros, by rw [withExtra, withExtra, h.settings]⟩

theorem alike_submitted (extra : List String) {sets sets' : List TaskSet}
    (h : List.Forall₂ (TaskSet.Alike t u) sets sets') (s : Scope) :
    List.Forall₂ (Task.Alike t u) ((MergerCall.merge sets extra).submitted s)
      ((MergerCall.merge sets' extra).submitted s) :=
  List.rel_map (fun _ _ hset => alike_withExtra extra (hset s)) h

/-- Alike tasks are merged alike. -/
theorem alike_merge {extra : List String} {sets sets' : List TaskSet}
    (h : List.Forall₂ (TaskSet.Alike t u) sets sets') (s : Scope)
    (hw : (MergerCall.merge sets extra).WellFormed) (hd : (MergerCall.merge sets extra).Separate)
    (hw' : (MergerCall.merge sets' extra).WellFormed)
    (hd' : (MergerCall.merge sets' extra).Separate) :
    List.Forall₂ (Task.Alike t u) ((Merger.empty.merge sets extra).1.get s)
      ((Merger.empty.merge sets' extra).1.get s) := by
  rw [(grouped_merge hw hd).1, (grouped_merge hw' hd').1]
  exact List.rel_foldl (P := List.Forall₂ (Task.Alike t u)) (R := Task.Alike t u)
    (fun _ _ h _ _ hu => alike_join hu h) .nil (alike_submitted extra h s)

end Merger
end PrecompiledHeaders
