import PrecompiledHeaders.Proofs.FirstMentions
import PrecompiledHeaders.Split
import Mathlib.Data.List.Nodup
/-! Which files and macros go to which scope. Of each file only the first entry counts; the file goes
to the scope of its role, and into the header if the role is a top one. A macro goes to the scope of
the first counted entry with its order, and defines itself there if the part gives it a value. -/
namespace PrecompiledHeaders

/-- The entries that count: of each file the first one, in order. -/
def Dependency.firstEntries (d : Dependency) : List IncludeEntry := keepFirst (·.file) [] d.includes

theorem PerScope.get_modify (p : PerScope α) (s t : Scope) (f : α → α) :
    (p.modify s f).get t = if s = t then f (p.get t) else p.get t := by
  by_cases h : s = t
  · subst h
    simp
  · simp [h, modify, get_set_of_ne _ h]

namespace Split

/-! ### The shares -/

def filesIn (scope : Scope) (es : List IncludeEntry) : List FileId :=
  (es.filter fun e => e.role.scope? = some scope).map (·.file)

def topsIn (scope : Scope) (es : List IncludeEntry) : List FileId :=
  (es.filter fun e => e.role.scope? = some scope ∧ e.role.isTop).map (·.file)

/-- The role that an order stands for: that of the first entry with this order. -/
def roleOf? (es : List IncludeEntry) (order : Nat) : Option IncludeRole :=
  (es.find? (·.order = order)).map (·.role)

def macrosIn (scope : Scope) (es : List IncludeEntry) (ms : List UsedMacro) : List UsedMacro :=
  ms.filter fun m => (roleOf? es m.order).bind IncludeRole.scope? = some scope

/-- The macros that have a value, with their first one. -/
def definitions (s : Settings) (ms : List UsedMacro) : List MacroDefinition :=
  ms.filterMap fun m => (s.macros.find? (·.name = m.name)).map fun x => ⟨m.name, x.value, m.order⟩

/-- What a scope gets of the entries and the macros. -/
def share (part : Part) (scope : Scope) (es : List IncludeEntry) (ms : List UsedMacro) : Task where
  members := [part.id]
  includes := topsIn scope es
  sources := filesIn scope es
  usedMacros := macrosIn scope es ms
  settings := { part.settings with macros := definitions part.settings (macrosIn scope es ms) }

variable {part : Part} {scope : Scope} {es more : List IncludeEntry} {ms rest : List UsedMacro}
  {e : IncludeEntry} {m : UsedMacro} {s : Split}

theorem filesIn_subset (scope : Scope) (es : List IncludeEntry) :
    filesIn scope es ⊆ es.map (·.file) :=
  List.map_subset _ List.filter_sublist.subset

theorem topsIn_sublist (scope : Scope) (es : List IncludeEntry) :
    (topsIn scope es).Sublist (filesIn scope es) := by
  apply List.Sublist.map
  apply List.monotone_filter_right
  intro e he
  exact decide_eq_true (of_decide_eq_true he).1

/-- No file has entries in both scopes. -/
theorem scope_eq_of_mem {scope scope' : Scope} {f : FileId} (hn : (es.map (·.file)).Nodup)
    (h : f ∈ filesIn scope es) (k : f ∈ filesIn scope' es) : scope = scope' := by
  obtain ⟨e, he, rfl⟩ := List.mem_map.mp h
  obtain ⟨e', he', hfile⟩ := List.mem_map.mp k
  obtain ⟨hmem, hscope⟩ := List.mem_filter.mp he
  obtain ⟨hmem', hscope'⟩ := List.mem_filter.mp he'
  obtain rfl := List.inj_on_of_nodup_map hn hmem' hmem hfile
  exact Option.some.inj ((of_decide_eq_true hscope).symm.trans (of_decide_eq_true hscope'))

theorem mem_macrosIn : m ∈ macrosIn scope es ms ↔
    m ∈ ms ∧ (roleOf? es m.order).bind IncludeRole.scope? = some scope := by
  rw [macrosIn, List.mem_filter, decide_eq_true_iff]

/-! ### Includes -/

/-- The state in which these entries have been taken, and no macro yet. -/
structure Took (part : Part) (es : List IncludeEntry) (s : Split) : Prop where
  tasks : ∀ scope, s.tasks.get scope = share part scope es []
  seen : ∀ f, f ∈ s.seen ↔ f ∈ es.map (·.file)
  roles : ∀ order, s.roles.lookup order = roleOf? es order

theorem took_start (part : Part) : Took part [] (start part) := by
  constructor
  · intro scope
    cases scope <;> rfl
  · intro f
    exact Iff.rfl
  · intro order
    rfl

theorem roleOf?_snoc (es : List IncludeEntry) (e : IncludeEntry) (order : Nat) :
    roleOf? (es ++ [e]) order = (roleOf? es order).or (roleOf? [e] order) := by
  rw [roleOf?, List.find?_append, Option.map_or]
  rfl

theorem lookup_withRole {roles : List (Nat × IncludeRole)} {order : Nat} :
    (withRole roles e).lookup order = (roles.lookup order).or (roleOf? [e] order) := by
  have hone : [(e.order, e.role)].lookup order = roleOf? [e] order := by
    by_cases h : e.order = order
    · simp [roleOf?, h]
    · have hne : (order == e.order) = false := beq_eq_false_iff_ne.mpr (Ne.symm h)
      simp [roleOf?, h, List.lookup_cons, hne]
  rw [withRole]
  split
  · rename_i hknown
    by_cases h : e.order = order
    · rw [← h]
      obtain ⟨role, hrole⟩ := Option.isSome_iff_exists.mp hknown
      rw [hrole]
      rfl
    · simp [roleOf?, h]
  · rw [List.lookup_append, hone]

/-- The first entry of a file joins its scope. -/
theorem share_snoc (h : e.file ∉ es.map (·.file)) : share part scope (es ++ [e]) [] =
    if e.role.scope? = some scope then addFile e (share part scope es [])
    else share part scope es [] := by
  have hnew : e.file ∉ filesIn scope es := fun hmem => h (filesIn_subset _ _ hmem)
  have happend : Task.appendNew (filesIn scope es) [e.file] = filesIn scope es ++ [e.file] := by
    simp [Task.appendNew, hnew]
  by_cases hscope : e.role.scope? = some scope
  · have hfiles : filesIn scope (es ++ [e]) = filesIn scope es ++ [e.file] := by
      simp [filesIn, hscope]
    rw [if_pos hscope, addFile, share, hfiles, Task.addSources]
    by_cases htop : e.role.isTop
    · have htops : topsIn scope (es ++ [e]) = topsIn scope es ++ [e.file] := by
        simp [topsIn, hscope, htop]
      rw [htops, if_pos htop, ← happend]
      rfl
    · have htops : topsIn scope (es ++ [e]) = topsIn scope es := by
        simp [topsIn, htop]
      rw [htops, if_neg htop, ← happend]
      rfl
  · have hfiles : filesIn scope (es ++ [e]) = filesIn scope es := by
      simp [filesIn, hscope]
    have htops : topsIn scope (es ++ [e]) = topsIn scope es := by
      simp [topsIn, hscope]
    rw [if_neg hscope, share, hfiles, htops]
    rfl

theorem Took.addInclude (h : Took part es s) (hnew : e.file ∉ es.map (·.file)) :
    Took part (es ++ [e]) (s.addInclude e) := by
  have hseen : e.file ∉ s.seen := fun hmem => hnew ((h.seen _).mp hmem)
  rw [Split.addInclude, if_neg hseen]
  constructor
  · intro scope
    rw [share_snoc hnew]
    cases hrole : e.role.scope? with
    | none => simpa using h.tasks scope
    | some scope' =>
      dsimp only
      rw [PerScope.get_modify, h.tasks]
      by_cases hs : scope' = scope
      · simp [hs]
      · simp [hs]
  · intro f
    simp [h.seen, or_comm]
  · intro order
    rw [roleOf?_snoc, ← h.roles]
    exact lookup_withRole

/-- All entries are gone through; those of files that were seen change nothing. -/
theorem Took.foldl (h : Took part es s) (more : List IncludeEntry) :
    Took part (es ++ keepFirst (·.file) (es.map (·.file)) more) (more.foldl Split.addInclude s) := by
  induction more generalizing es s with
  | nil =>
    rw [keepFirst, List.append_nil]
    exact h
  | cons e more ih =>
    rw [keepFirst, List.foldl_cons]
    by_cases hseen : e.file ∈ es.map (·.file)
    · have hsame : s.addInclude e = s := if_pos ((h.seen _).mpr hseen)
      rw [if_pos hseen, hsame]
      exact ih h
    · have hnext := ih (h.addInclude hseen)
      have hfirst : keepFirst (·.file) ((es ++ [e]).map (·.file)) more =
          keepFirst (·.file) (e.file :: es.map (·.file)) more := by
        apply keepFirst_congr
        intro f
        simp [or_comm]
      rw [if_neg hseen]
      rwa [hfirst, List.append_assoc] at hnext

/-! ### Macros -/

/-- The state in which these macros have been given out as well. -/
structure Gave (part : Part) (es : List IncludeEntry) (ms : List UsedMacro) (s : Split) : Prop where
  tasks : ∀ scope, s.tasks.get scope = share part scope es ms
  roles : ∀ order, s.roles.lookup order = roleOf? es order

theorem share_addUsed (h : m.name ∉ ms.map (·.name)) : share part scope es (ms ++ [m]) =
    if (roleOf? es m.order).bind IncludeRole.scope? = some scope then
      addUsed part m (share part scope es ms)
    else share part scope es ms := by
  have hunused : (macrosIn scope es ms).any (·.name = m.name) = false := by
    rw [List.any_eq_false]
    intro x hx
    have hname := List.mem_map_of_mem (f := UsedMacro.name) (mem_macrosIn.mp hx).1
    simpa using fun heq : x.name = m.name => h (heq ▸ hname)
  have hsnoc : macrosIn scope es (ms ++ [m]) = macrosIn scope es ms ++ macrosIn scope es [m] :=
    List.filter_append ..
  by_cases hscope : (roleOf? es m.order).bind IncludeRole.scope? = some scope
  · have hone : macrosIn scope es [m] = [m] := by simp [macrosIn, hscope]
    rw [if_pos hscope, addUsed, share, hsnoc, hone]
    simp only [share, hunused]
    cases hvalue : part.settings.macros.find? (·.name = m.name) with
    | none => simp [Settings.macroValue?, hvalue, definitions]
    | some x => simp [Settings.macroValue?, hvalue, definitions]
  · have hone : macrosIn scope es [m] = [] := by simp [macrosIn, hscope]
    rw [if_neg hscope, share, hsnoc, hone, List.append_nil]
    rfl

theorem Gave.addMacro (h : Gave part es ms s) (hnew : m.name ∉ ms.map (·.name)) :
    Gave part es (ms ++ [m]) (Split.addMacro part s m) := by
  have hscope : s.scopeOf? m = (roleOf? es m.order).bind IncludeRole.scope? := by
    rw [scopeOf?, h.roles]
  rw [Split.addMacro, hscope]
  cases hrole : (roleOf? es m.order).bind IncludeRole.scope? with
  | none =>
    refine ⟨fun scope => ?_, h.roles⟩
    rw [share_addUsed hnew, hrole]
    simpa using h.tasks scope
  | some scope' =>
    refine ⟨fun scope => ?_, h.roles⟩
    rw [share_addUsed hnew, hrole]
    dsimp only
    rw [PerScope.get_modify, h.tasks]
    by_cases hs : scope' = scope
    · simp [hs]
    · simp [hs]

theorem Gave.foldl (h : Gave part es ms s) (hn : ((ms ++ rest).map (·.name)).Nodup) :
    Gave part es (ms ++ rest) (rest.foldl (Split.addMacro part) s) := by
  induction rest generalizing ms s with
  | nil =>
    rw [List.append_nil]
    exact h
  | cons m rest ih =>
    rw [List.append_cons] at hn ⊢
    have hnew : m.name ∉ ms.map (·.name) := by
      rw [List.map_append, List.map_append, List.append_assoc] at hn
      intro hmem
      exact List.disjoint_of_nodup_append hn hmem (List.mem_append_left _ List.mem_cons_self)
    exact ih (h.addMacro hnew) hn

end Split

open Split

/-- The tasks of a part have their shares of the entries that count and of the used macros, as long as
no macro is listed twice. The files of a header are among those that its task reads, in the same order
and each once; no file is in both tasks. A macro is in no task if no entry that counts has its order, or
the first one is the user's own file, and no macro is in both. -/
theorem Part.scope_split (part : Part) (d : Dependency) (h : (d.usedMacros.map (·.name)).Nodup) :
    (∀ scope, (part.tasks d).get scope = share part scope d.firstEntries d.usedMacros) ∧
    (∀ scope, let t := (part.tasks d).get scope; t.includes.Sublist t.sources ∧ t.sources.Nodup) ∧
    (∀ f ∈ (part.tasks d).system.sources, f ∉ (part.tasks d).project.sources) ∧
    (∀ m, roleOf? d.firstEntries m.order = none ∨
        roleOf? d.firstEntries m.order = some .userInclude →
      ∀ scope, m ∉ ((part.tasks d).get scope).usedMacros) ∧
    ∀ m ∈ (part.tasks d).system.usedMacros, ∀ m' ∈ (part.tasks d).project.usedMacros,
      m.name ≠ m'.name := by
  have hincludes := (took_start part).foldl d.includes
  have hgave : Gave part d.firstEntries [] (d.includes.foldl addInclude (start part)) :=
    ⟨hincludes.tasks, hincludes.roles⟩
  have hshare : ∀ scope, (part.tasks d).get scope = share part scope d.firstEntries d.usedMacros :=
    (hgave.foldl h).tasks
  have hnodup : (d.firstEntries.map (·.file)).Nodup := nodup_map_keepFirst _ _ _
  have hsystem : (part.tasks d).system = share part .system d.firstEntries d.usedMacros :=
    hshare .system
  have hproject : (part.tasks d).project = share part .project d.firstEntries d.usedMacros :=
    hshare .project
  refine ⟨hshare, fun scope => ?_, fun f hf hf' => ?_, fun m hm scope hmem => ?_,
    fun m hm m' hm' hname => ?_⟩
  · rw [hshare scope]
    constructor
    · exact topsIn_sublist _ _
    · exact hnodup.sublist (List.filter_sublist.map _)
  · rw [hsystem] at hf
    rw [hproject] at hf'
    exact absurd (scope_eq_of_mem hnodup hf hf') (by decide)
  · rw [hshare scope] at hmem
    have hscope := (mem_macrosIn.mp hmem).2
    rcases hm with hm | hm
    · rw [hm] at hscope
      cases hscope
    · rw [hm] at hscope
      cases hscope
  · rw [hsystem] at hm
    rw [hproject] at hm'
    obtain ⟨hmem, hscope⟩ := mem_macrosIn.mp hm
    obtain ⟨hmem', hscope'⟩ := mem_macrosIn.mp hm'
    obtain rfl := List.inj_on_of_nodup_map h hmem hmem' hname
    rw [hscope] at hscope'
    cases hscope'

/-- A part that defines a macro twice. -/
def definingPart : Part :=
  ⟨"a", { Settings.default with macros := [⟨"A", "1", 1⟩, ⟨"A", "2", 2⟩, ⟨"B", "3", 3⟩] }, [], []⟩

/-- The first file comes back in another role, two files have one order, one file is the user's own, and
the last macro is of no file. -/
def crowded : Dependency where
  includes := [⟨⟨0⟩, .topSystemInclude, 1⟩, ⟨⟨1⟩, .topProjectInclude, 1⟩,
    ⟨⟨0⟩, .topProjectInclude, 2⟩, ⟨⟨2⟩, .systemInclude, 3⟩, ⟨⟨3⟩, .userInclude, 4⟩,
    ⟨⟨4⟩, .projectInclude, 5⟩]
  usedMacros := [⟨"A", 1⟩, ⟨"X", 2⟩, ⟨"C", 3⟩, ⟨"Y", 4⟩, ⟨"B", 5⟩, ⟨"Z", 6⟩]
  sources := []
  statuses := []

theorem Part.scope_split_crowded :
    (crowded.usedMacros.map (·.name)).Nodup ∧
    definingPart.tasks crowded =
      ⟨⟨["a"], [⟨0⟩], [⟨0⟩, ⟨2⟩], [⟨"A", 1⟩, ⟨"C", 3⟩],
          { Settings.default with macros := [⟨"A", "1", 1⟩] }⟩,
        ⟨["a"], [⟨1⟩], [⟨1⟩, ⟨4⟩], [⟨"B", 5⟩],
          { Settings.default with macros := [⟨"B", "3", 5⟩] }⟩⟩ := by
  have hnames : (crowded.usedMacros.map (·.name)).Nodup := by decide
  obtain ⟨hshare, _⟩ := Part.scope_split definingPart crowded hnames
  have hsystem := (hshare .system).trans (by decide : _ = (⟨["a"], [⟨0⟩], [⟨0⟩, ⟨2⟩],
    [⟨"A", 1⟩, ⟨"C", 3⟩], { Settings.default with macros := [⟨"A", "1", 1⟩] }⟩ : Task))
  have hproject := (hshare .project).trans (by decide : _ = (⟨["a"], [⟨1⟩], [⟨1⟩, ⟨4⟩], [⟨"B", 5⟩],
    { Settings.default with macros := [⟨"B", "3", 5⟩] }⟩ : Task))
  exact ⟨hnames, congrArg₂ PerScope.mk hsystem hproject⟩

end PrecompiledHeaders
