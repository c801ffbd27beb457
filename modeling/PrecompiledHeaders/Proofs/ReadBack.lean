import PrecompiledHeaders.Proofs.Provider.Staleness
/-! Dependencies that are written down and read back. A record is made exactly when all numbers have
paths, its document says the same as it does, and reading it gives the dependency again: the very
one under the same numbers, and under other numbers one that equates the same positions. -/
namespace PrecompiledHeaders

/-- Members of matching lists are equal at the same positions. -/
theorem getElem?_eq_iff_of_biUnique {R : α → β → Prop} (hR : Relator.BiUnique R) {as : List α}
    {bs : List β} (h : List.Forall₂ R as bs) (i j : Nat) :
    as[i]? = as[j]? ↔ bs[i]? = bs[j]? := by
  have hat : ∀ n : Nat, Option.Rel R as[n]? bs[n]? := by
    intro n
    induction h generalizing n with
    | nil => exact .none
    | cons hab _ ih =>
      cases n with
      | zero => exact .some hab
      | succ n => simpa using ih n
  have hi := hat i
  have hj := hat j
  generalize as[i]? = a, bs[i]? = b at hi
  generalize as[j]? = a', bs[j]? = b' at hj
  cases hi with
  | none => cases hj <;> simp
  | some hi =>
    cases hj with
    | none => simp
    | some hj =>
      rw [Option.some.injEq, Option.some.injEq]
      exact Relator.rel_eq hR hi hj

theorem forall_mem_of_forall₂ {R : α → β → Prop} {P : α → Prop} {Q : β → Prop} {as : List α}
    {bs : List β} (h : List.Forall₂ R as bs) (hP : ∀ a ∈ as, P a)
    (hR : ∀ a b, P a → R a b → Q b) : ∀ b ∈ bs, Q b := by
  induction h with
  | nil => exact fun b hb => absurd hb List.not_mem_nil
  | cons hab _ ih =>
    rw [List.forall_mem_cons] at hP ⊢
    exact ⟨hR _ _ hP.1 hab, ih hP.2⟩

namespace FileTable

variable {t : FileTable} {ids : List FileId} {id : FileId}

def firstUnknown? (t : FileTable) (ids : List FileId) : Option FileId :=
  ids.find? fun id => (t.path? id).isNone

theorem firstUnknown?_eq_none : t.firstUnknown? ids = none ↔ t.Knows ids := by
  simp [firstUnknown?, Knows, Option.ne_none_iff_exists']

theorem firstUnknown?_append (ids js : List FileId) :
    t.firstUnknown? (ids ++ js) = (t.firstUnknown? ids).or (t.firstUnknown? js) :=
  List.find?_append

end FileTable

namespace Dependency

/-- All numbers of the dependency, in the order in which they are looked up. -/
def mentioned (d : Dependency) : List FileId :=
  d.includes.map (·.file) ++ d.statuses.map (·.file) ++ d.sources

/-- All orders and stamps are as wide as the documents keep them. -/
structure Fits (d : Dependency) : Prop where
  includes : ∀ i ∈ d.includes, i.order < UInt32.size
  usedMacros : ∀ m ∈ d.usedMacros, m.order < UInt32.size
  statuses : ∀ s ∈ d.statuses, ∀ t, s.modified = some t →
    Int64.minValue.toInt ≤ t ∧ t ≤ Int64.maxValue.toInt

variable {t u : FileTable} {part : PartId} {d e : Dependency} {r : Record}

/-- A dependency with known files has a record. -/
theorem named_of_knows (part : PartId) (h : t.Knows d.mentioned) : ∃ r, d.Named t part r := by
  let path (id : FileId) : FilePath := ⟨(t.path? id).getD ""⟩
  have hpath : ∀ id ∈ d.mentioned, t.path? id = some (path id).text := by
    intro id hid
    obtain ⟨p, hp⟩ := h id hid
    rw [hp, show path id = ⟨p⟩ from congrArg FilePath.mk (by rw [hp]; rfl)]
  simp only [mentioned, List.mem_append, List.mem_map] at hpath
  refine ⟨⟨part, d.includes.map fun i => ⟨path i.file, i.role, i.order⟩, d.usedMacros,
    d.sources.map path, d.statuses.map fun s => ⟨path s.file, s.modified⟩⟩, rfl, ?_, rfl, ?_, ?_⟩
  · rw [List.forall₂_map_right_iff, List.forall₂_same]
    exact fun i hi => ⟨hpath _ (.inl (.inl ⟨i, hi, rfl⟩)), rfl, rfl⟩
  · rw [FileTable.Resolves, List.map_map, List.forall₂_map_right_iff, List.forall₂_same]
    exact fun id hid => hpath id (.inr hid)
  · rw [List.forall₂_map_right_iff, List.forall₂_same]
    exact fun s hs => ⟨hpath _ (.inl (.inr ⟨s, hs, rfl⟩)), rfl⟩

theorem Named.resolves_mentioned (h : d.Named t part r) :
    t.Resolves d.mentioned (r.includes.map (·.path.text) ++ r.statuses.map (·.path.text) ++
      r.sources.map (·.text)) :=
  List.rel_append (List.rel_append h.resolves_includes
    (List.rel_map (fun _ _ hs => hs.path) h.statuses)) h.sources

theorem Named.fits (h : d.Named t part r) (hd : d.Fits) : r.Fits := by
  refine ⟨?_, h.usedMacros.symm ▸ hd.usedMacros, ?_⟩
  · exact forall_mem_of_forall₂ h.includes hd.includes fun e i he hei => hei.order ▸ he
  · exact forall_mem_of_forall₂ h.statuses hd.statuses fun e s he hes t ht =>
      he t (hes.modified ▸ ht)

/-- Two dependencies with one record have the same numbers at the same positions. -/
theorem Named.getElem?_mentioned (h : d.Named t part r) (k : e.Named u part r) (i j : Nat) :
    e.mentioned[i]? = e.mentioned[j]? ↔ d.mentioned[i]? = d.mentioned[j]? :=
  getElem?_eq_iff_of_biUnique (FileTable.biUnique_same u t)
    (k.resolves_mentioned.same h.resolves_mentioned) i j

end Dependency

namespace Record

variable {t : FileTable}

/-- Of a list that is looked up member by member, the first unknown number is reported. -/
theorem mapM_pathOf {f : α → Except Fault β} {key : α → FileId} {g : α → FilePath → β}
    (hf : ∀ a, f a = (pathOf t (key a)).map (g a)) (as : List α) :
    match t.firstUnknown? (as.map key) with
    | some id => as.mapM f = .error (.unknownFile id)
    | none => ∃ bs, as.mapM f = .ok bs := by
  induction as with
  | nil => exact ⟨[], rfl⟩
  | cons a as ih =>
    rw [List.mapM_cons, hf, pathOf, List.map_cons, FileTable.firstUnknown?, List.find?_cons]
    cases hp : t.path? (key a) with
    | none => rfl
    | some p =>
      simp only [Option.isNone_some]
      rw [FileTable.firstUnknown?] at ih
      split <;> rename_i hfind <;> rw [hfind] at ih
      · rw [ih]
        rfl
      · obtain ⟨bs, hbs⟩ := ih
        rw [hbs]
        exact ⟨_, rfl⟩

/-- Without a path for every number there is no record. -/
theorem ofDependency_of_unknown (part : PartId) {d : Dependency} {id : FileId}
    (h : t.firstUnknown? d.mentioned = some id) :
    ofDependency part d t = .error (.unknownFile id) := by
  have hincludes := mapM_pathOf (t := t) (f := includeOf t) (fun _ => rfl) d.includes
  have hstatuses := mapM_pathOf (t := t) (f := statusOf t) (fun _ => rfl) d.statuses
  have hpath : ∀ i, pathOf t i = (pathOf t i).map fun p => p := by
    intro i
    cases pathOf t i <;> rfl
  have hsources := mapM_pathOf hpath d.sources
  rw [List.map_id'] at hsources
  rw [Dependency.mentioned, FileTable.firstUnknown?_append, FileTable.firstUnknown?_append] at h
  rw [ofDependency]
  split at hincludes <;> rename_i hi <;> rw [hi] at h
  · rw [hincludes, Option.some.inj h]
    rfl
  obtain ⟨includes, hincludes⟩ := hincludes
  rw [hincludes]
  split at hstatuses <;> rename_i hs <;> rw [hs] at h
  · rw [hstatuses, Option.some.inj h]
    rfl
  obtain ⟨statuses, hstatuses⟩ := hstatuses
  rw [hstatuses]
  rw [show t.firstUnknown? d.sources = some id from h] at hsources
  dsimp only at hsources
  rw [hsources]
  rfl

end Record

/-! ### Records and back -/

section

variable {W : Type} [Workshop W] [LawfulWorkshop W]

/-- Dependencies survive as records. With an unknown number there is no record, and the first such
number is reported. Otherwise the record is read back as it was written; under the numbers it was
made with it gives the same dependency and no new number; and under any other numbers it gives a
dependency with that same record, in which two positions have one number exactly if they had one
before. -/
theorem records_survive (part : PartId) (files : FileTable) {d : Dependency} (hd : d.Fits) :
    (¬ files.Knows d.mentioned → ∃ id ∈ d.mentioned, files.firstUnknown? d.mentioned = some id ∧
      Record.ofDependency part d files = .error (.unknownFile id)) ∧
    (files.Knows d.mentioned → ∃ r, Record.ofDependency part d files = .ok r ∧
      (Json.read r.toJson.pretty).bind Record.ofJson? = some r ∧
      (∀ (w : W) (path : FilePath), ∃ v, Document.save w path r.toJson = (.ok (), v) ∧
        Document.load v path Record.ofJson? = .ok (some r)) ∧
      r.toDependency files = (d, files) ∧
      ∀ others : FileTable, ∃ e others', r.toDependency others = (e, others') ∧
        others'.Extends others ∧ Record.ofDependency part e others' = .ok r ∧
        ∀ i j : Nat, e.mentioned[i]? = e.mentioned[j]? ↔ d.mentioned[i]? = d.mentioned[j]?) := by
  constructor
  · intro hunknown
    obtain ⟨id, hid⟩ := Option.ne_none_iff_exists'.mp (mt FileTable.firstUnknown?_eq_none.mp hunknown)
    exact ⟨id, List.mem_of_find?_eq_some hid, hid, Record.ofDependency_of_unknown part hid⟩
  · intro hknown
    obtain ⟨r, hnamed⟩ := Dependency.named_of_knows part hknown
    have hdecode := Record.ofJson?_toJson (hnamed.fits hd)
    refine ⟨r, Record.ofDependency_of_named hnamed, ?_, fun w path => ?_, hnamed.toDependency,
      fun others => ?_⟩
    · rw [Json.read_pretty r.plain_toJson]
      exact hdecode
    · exact ⟨_, Document.save_result w path r.toJson,
        Document.load_saved r.plain_toJson hdecode rfl⟩
    · have hread := r.toDependency_named others
      rw [hnamed.part] at hread
      exact ⟨_, _, rfl, (r.toDependency_spec others).1, Record.ofDependency_of_named hread,
        hnamed.getElem?_mentioned hread⟩

/-- A dependency whose sources have numbers that its includes do not have, with the widest order
and a stamp before the epoch. -/
def scattered : Dependency :=
  ⟨[⟨⟨1⟩, .projectInclude, 3⟩, ⟨⟨0⟩, .topSystemInclude, 4294967295⟩], [⟨"\"M\"", 0⟩], [⟨2⟩],
    [⟨⟨1⟩, some (-5)⟩, ⟨⟨0⟩, none⟩, ⟨⟨2⟩, some 7⟩]⟩

theorem scattered_fits : scattered.Fits := ⟨by decide, by decide, by
  simp only [scattered, List.forall_mem_cons, Option.some.injEq]
  refine ⟨?_, ?_, ?_, fun _ h => absurd h List.not_mem_nil⟩
  · rintro _ rfl
    decide
  · exact fun _ h => by cases h
  · rintro _ rfl
    decide⟩

theorem scattered_survives :
    (∃ r, Record.ofDependency "p" scattered ⟨["/s.h", "/a.h", "/a.cpp"], by decide⟩ = .ok r ∧
      (Json.read r.toJson.pretty).bind Record.ofJson? = some r ∧
      ((r.toDependency ⟨["/x", "/a.cpp"], by decide⟩).1.mentioned) =
        [⟨2⟩, ⟨3⟩, ⟨2⟩, ⟨3⟩, ⟨1⟩, ⟨1⟩]) ∧
      Record.ofDependency "p" scattered ⟨["/s.h", "/a.h"], by decide⟩ =
        .error (.unknownFile ⟨2⟩) := by
  constructor
  · obtain ⟨r, hr, hread, _⟩ := (records_survive (W := WritingBench) "p"
      ⟨["/s.h", "/a.h", "/a.cpp"], by decide⟩ scattered_fits).2 (by
        simp only [scattered, Dependency.mentioned, FileTable.Knows, List.map_cons, List.map_nil,
          List.cons_append, List.nil_append, List.forall_mem_cons]
        simp [FileTable.path?])
    refine ⟨r, hr, hread, ?_⟩
    obtain rfl := Except.ok.inj hr
    decide
  · obtain ⟨id, _, hid, hfails⟩ := (records_survive (W := WritingBench) "p"
      ⟨["/s.h", "/a.h"], by decide⟩ scattered_fits).1 (by
        rw [← FileTable.firstUnknown?_eq_none]
        decide)
    obtain rfl : id = ⟨2⟩ := Option.some.inj (hid.symm.trans (by decide))
    exact hfails

end

end PrecompiledHeaders
