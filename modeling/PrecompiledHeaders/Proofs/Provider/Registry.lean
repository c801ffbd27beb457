import PrecompiledHeaders.Proofs.Collecting
import PrecompiledHeaders.Proofs.Split
import PrecompiledHeaders.Pipeline
/-! Whom the provider knows. A part with known files is known from the moment on when its dependency
is asked for, however the scan goes and whatever becomes of the record, until it is removed. -/
namespace PrecompiledHeaders

namespace TextMap

variable {α : Type} {m : TextMap α} {id : String}

theorem mem_foldl_erase {ids : List String} :
    id ∈ ids.foldl (fun m i => m.erase i) m ↔ id ∉ ids ∧ id ∈ m := by
  induction ids generalizing m with
  | nil => simp
  | cons i ids ih =>
    have hne : compare i id ≠ .eq ↔ id ≠ i := by
      rw [Ne, Std.LawfulEqCmp.compare_eq_iff_eq, eq_comm]
    rw [List.foldl_cons, ih, Std.TreeMap.mem_erase, hne, List.mem_cons, not_or, and_left_comm,
      and_assoc]

theorem mem_foldl_insert {f : α → String} {as : List α} :
    id ∈ as.foldl (fun m a => m.insert (f a) a) m ↔ id ∈ as.map f ∨ id ∈ m := by
  induction as generalizing m with
  | nil => simp
  | cons a as ih =>
    rw [List.foldl_cons, ih, Std.TreeMap.mem_insert, Std.LawfulEqCmp.compare_eq_iff_eq,
      List.map_cons, List.mem_cons, or_left_comm, ← or_assoc]
    exact or_congr_left (or_congr_left eq_comm)

theorem getElem?_foldl_insert {f : α → String} {as : List α} {a : α}
    (h : (as.foldl (fun m a => m.insert (f a) a) m)[id]? = some a) :
    (a ∈ as ∧ f a = id) ∨ m[id]? = some a := by
  induction as generalizing m with
  | nil => exact Or.inr h
  | cons b as ih =>
    rcases ih h with ⟨hmem, hf⟩ | hm
    · exact Or.inl ⟨List.mem_cons_of_mem _ hmem, hf⟩
    · rw [Std.TreeMap.getElem?_insert] at hm
      split at hm
      · rename_i heq
        obtain rfl := Option.some.inj hm
        exact Or.inl ⟨List.mem_cons_self, Std.LawfulEqCmp.eq_of_compare heq⟩
      · exact Or.inr hm

end TextMap

variable {W : Type} [World W]

theorem Collection.collect_extends (ws : Workspace W) (overlay : Overlay) (part : Part) :
    (collect ws overlay part).2.files.Extends ws.files := by
  rw [collect]
  split
  · exact FileTable.Extends.refl _
  · split
    · exact FileTable.Extends.refl _
    · split
      · exact FileTable.Extends.refl _
      · exact (entries_spec _ ws.files [] _).1

namespace Provider

/-- Files got numbers, and this part joined those that are known. -/
structure Joins (p : Provider) (ws : Workspace W) (ids : List PartId) (p' : Provider)
    (ws' : Workspace W) : Prop where
  files : ws'.files.Extends ws.files
  known : ∀ id, id ∈ p'.known ↔ id ∈ ids ∨ id ∈ p.known

variable {p p' p'' : Provider} {ws ws' ws'' : Workspace W} {ids others : List PartId}

omit [World W] in
theorem Joins.trans (h : Joins p ws ids p' ws') (k : Joins p' ws' others p'' ws'') :
    Joins p ws (ids ++ others) p'' ws'' := by
  refine ⟨h.files.trans k.files, fun id => ?_⟩
  rw [k.known, h.known, List.mem_append, ← or_assoc, or_comm (a := id ∈ others)]

omit [World W] in
theorem mem_known_remember {id i : PartId} {key : String} {d : Dependency} :
    i ∈ (p.remember id key d).known ↔ i = id ∨ i ∈ p.known := by
  rw [remember, Std.TreeMap.mem_insert, Std.LawfulEqCmp.compare_eq_iff_eq, eq_comm]

/-- Recalling what there is makes nobody known. -/
theorem cached_joins (p : Provider) (ws : Workspace W) (id : PartId) (key : String) :
    ∃ o p' ws', p.cached ws id key = (o, p', ws') ∧ Joins p ws [] p' ws' := by
  have hload : ∃ o p' ws', p.loadStored ws id key = (o, p', ws') ∧ Joins p ws [] p' ws' := by
    obtain ⟨o, p', ws', hload, hext, _, _, hknown, _⟩ := p.loadStored_spec ws id key
    exact ⟨o, p', ws', hload, hext, fun i => by simp [hknown]⟩
  rw [cached]
  split
  · split
    · exact ⟨_, _, _, rfl, FileTable.Extends.refl _, fun i => by simp⟩
    · exact hload
  · exact hload

theorem saveRecord_joins (p : Provider) (ws : Workspace W) (id : PartId) (key : String)
    (d : Dependency) : ∃ p' ws', p.saveRecord ws id key d = (p', ws') ∧ Joins p ws [] p' ws' := by
  rw [saveRecord]
  split
  · exact ⟨_, _, rfl, FileTable.Extends.refl _, fun i => by simp [note]⟩
  · split
    · exact ⟨_, _, rfl, FileTable.Extends.refl _, fun i => by simp⟩
    · exact ⟨_, _, rfl, FileTable.Extends.refl _, fun i => by simp [note]⟩

/-- Whether the scan succeeds or fails, the part is known. -/
theorem recollect_joins (p : Provider) (ws : Workspace W) (part : Part) (key : String)
    (old : Option Dependency) : ∃ d p' ws', p.recollect ws part key old = (d, p', ws') ∧
      Joins p ws [part.id] p' ws' := by
  have hext := Collection.collect_extends ws p.overlay part
  rw [recollect]
  split
  · rename_i d ws₁ hcollect
    rw [hcollect] at hext
    obtain ⟨p₂, ws₂, hsave, hjoins⟩ :=
      saveRecord_joins { p with lookups := p.lookups + d.statuses.length } ws₁ part.id key d
    dsimp only
    rw [hsave]
    refine ⟨_, _, _, rfl, hext.trans hjoins.files, fun i => ?_⟩
    rw [mem_known_remember, hjoins.known, List.mem_singleton]
    simp
  · rename_i f ws₁ hcollect
    rw [hcollect] at hext
    refine ⟨_, _, _, rfl, hext, fun i => ?_⟩
    rw [mem_known_remember, List.mem_singleton]
    rfl

theorem create_joins (p : Provider) {ws : Workspace W} {part : Part} (hk : part.Known ws.files) :
    ∃ d p' ws', p.create ws part = (.ok d, p', ws') ∧ Joins p ws [part.id] p' ws' := by
  obtain ⟨_, _, _, _, hkey⟩ := Part.recordKey_eq_ok hk
  rw [create, hkey]
  dsimp only
  generalize digestText _ = key
  obtain ⟨o, p₁, ws₁, hcached, hjoins⟩ :=
    cached_joins { p with forced := p.forced.filter (· ≠ part.id) } ws part.id key
  rw [hcached]
  have hfirst : Joins p ws [] p₁ ws₁ := ⟨hjoins.files, hjoins.known⟩
  have hagain : ∀ (q : Provider) (old : Option Dependency), q.known = p₁.known →
      ∃ d p' ws', q.recollect ws₁ part key old = (d, p', ws') ∧
        Joins p ws [part.id] p' ws' := by
    intro q old hq
    obtain ⟨d, p', ws', he, hf⟩ := recollect_joins q ws₁ part key old
    exact ⟨d, p', ws', he, hfirst.trans ⟨hf.files, hq ▸ hf.known⟩⟩
  cases o with
  | none =>
    obtain ⟨d, p', ws', he, hf⟩ := hagain p₁ none rfl
    dsimp only
    rw [he]
    exact ⟨d, p', ws', rfl, hf⟩
  | some d₀ =>
    dsimp only
    split
    · obtain ⟨d, p', ws', he, hf⟩ := hagain p₁ (some d₀) rfl
      rw [he]
      exact ⟨d, p', ws', rfl, hf⟩
    · split
      · refine ⟨_, _, _, rfl, hfirst.trans ⟨FileTable.Extends.refl _, fun i => ?_⟩⟩
        rw [mem_known_remember, List.mem_singleton]
      · obtain ⟨d, p', ws', he, hf⟩ := hagain { p₁ with
            lookups := p₁.lookups + Freshness.lookups ws₁ d₀.statuses } (some d₀) rfl
        rw [he]
        exact ⟨d, p', ws', rfl, hf⟩

omit [World W] in
theorem mem_known_removeParts {id : PartId} :
    id ∈ (p.removeParts ids).known ↔ id ∉ ids ∧ id ∈ p.known :=
  TextMap.mem_foldl_erase

end Provider

/-- Parts with known files all join, and each comes to tasks with this part as the only member. -/
theorem Pipeline.collectTasks_joins {p : Provider} {ws : Workspace W} {parts : List Part}
    (hk : ∀ part ∈ parts, part.Known ws.files) :
    ∃ sets p' ws', collectTasks p ws parts = (.ok sets, p', ws') ∧
      p.Joins ws (parts.map (·.id)) p' ws' ∧
      ∀ scope, sets.map (fun set => (set.get scope).members) = parts.map fun part => [part.id] := by
  induction parts generalizing p ws with
  | nil => exact ⟨[], p, ws, rfl, ⟨FileTable.Extends.refl _, fun id => by simp⟩, fun _ => rfl⟩
  | cons part parts ih =>
    obtain ⟨hpart, hrest⟩ := List.forall_mem_cons.mp hk
    obtain ⟨d, p₁, ws₁, hcreate, hjoins⟩ := p.create_joins hpart
    obtain ⟨sets, p₂, ws₂, hcollect, hmore, hmembers⟩ := @ih p₁ ws₁ fun q hq =>
      (hrest q hq).extends hjoins.files
    refine ⟨part.tasks d :: sets, p₂, ws₂, ?_, hjoins.trans hmore, fun scope => ?_⟩
    · rw [collectTasks, hcreate]
      dsimp only
      rw [hcollect]
    · rw [List.map_cons, List.map_cons, hmembers, (Part.tasks_within part d scope).1]

end PrecompiledHeaders
