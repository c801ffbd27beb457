import PrecompiledHeaders.Config.Validity
import Mathlib.Data.List.DropRight
import Mathlib.Data.List.Nodup
import Mathlib.Data.Prod.Lex
/-! Which configurations are accepted, and what is said about the others. A configuration may have many
flaws at once. They have an order: tools come before parts, parts come as they are listed, and the rules for
one part have an order too. The complaint is about the first flaw. -/
namespace PrecompiledHeaders

namespace Text

theorem trim_eq_empty_iff {s : String} : trim s = "" ↔ isAllBlank s = true := by
  have htrim : trim s = String.ofList ((s.toList.dropWhile isBlank).rdropWhile isBlank) := rfl
  rw [htrim, String.ofList_eq_empty_iff, List.rdropWhile_eq_nil_iff, ← List.dropWhile_eq_nil_iff,
    List.dropWhile_idempotent, List.dropWhile_eq_nil_iff, isAllBlank, List.all_eq_true]

end Text

namespace Config

open Text (trim isAllBlank trim_eq_empty_iff)

/-! ### Flaws -/

/-- What can be wrong with a part. Macros are counted from zero. -/
inductive PartFlaw where
  | blankId
  | repeatedId
  | noSource
  | unnamedMacro (i : Nat)
  deriving DecidableEq, Repr

namespace PartFlaw

/-- A part behind these others has this flaw. -/
def Spoils (earlier : List PartEntry) (e : PartEntry) : PartFlaw → Prop
  | .blankId => trim e.id = ""
  | .repeatedId => e.id ∈ earlier.map (·.id)
  | .noSource => e.sources = []
  | .unnamedMacro i => ∃ m, e.macros[i]? = some m ∧ trim m.name = ""

def place : PartFlaw → Nat
  | .blankId => 0
  | .repeatedId => 1
  | .noSource => 2
  | .unnamedMacro i => 3 + i

/-- What is said about the flaw. Here macros are counted from one. -/
def complaint (e : PartEntry) : PartFlaw → String
  | .blankId => "project part id must not be empty"
  | .repeatedId => s!"duplicate project part id '{e.id}'"
  | .noSource => s!"project part '{e.id}' must list at least one source"
  | .unnamedMacro i =>
    s!"project part '{e.id}' has a macro without a name (entry " ++ toString (i + 1) ++ ")"

end PartFlaw

/-- A flaw of the part at this position. -/
structure Offence where
  position : Nat
  entry : PartEntry
  flaw : PartFlaw
  deriving DecidableEq, Repr

namespace Offence

/-- The offence is among these parts, which come behind the others. -/
def Spoils (earlier parts : List PartEntry) (o : Offence) : Prop :=
  parts[o.position]? = some o.entry ∧ o.flaw.Spoils (earlier ++ parts.take o.position) o.entry

def place (o : Offence) : Nat ×ₗ Nat := toLex (o.position, o.flaw.place)

def complaint (o : Offence) : String := o.flaw.complaint o.entry

theorem place_le_iff {o o' : Offence} : o.place ≤ o'.place ↔ o.position < o'.position ∨
    o.position = o'.position ∧ o.flaw.place ≤ o'.flaw.place := Prod.Lex.toLex_le_toLex

/-- The same offence where one more part comes first. -/
def shift (o : Offence) : Offence := { o with position := o.position + 1 }

end Offence

/-- What can be wrong with a configuration. -/
inductive Flaw where
  | noScanner
  | noCompiler
  | noParts
  | offence (o : Offence)
  deriving DecidableEq, Repr

namespace Flaw

def Spoils (c : Config) : Flaw → Prop
  | .noScanner => trim c.tools.scanner = ""
  | .noCompiler => trim c.tools.compiler = ""
  | .noParts => c.parts = []
  | .offence o => o.Spoils [] c.parts

/-- The place of an offence counts only among offences. -/
def place : Flaw → Nat ×ₗ (Nat ×ₗ Nat)
  | .noScanner => toLex (0, toLex (0, 0))
  | .noCompiler => toLex (1, toLex (0, 0))
  | .noParts => toLex (2, toLex (0, 0))
  | .offence o => toLex (3, o.place)

def complaint : Flaw → String
  | .noScanner => "[tools].scanner must name a dependency scanner command"
  | .noCompiler => "[tools].compiler must name a compiler command"
  | .noParts => "config must contain at least one [[project_part]] section"
  | .offence o => o.complaint

end Flaw

/-! ### Complaints -/

section

variable {F G P Q : Type} [LE P] [LE Q] {spoils : F → Prop} {place : F → P} {complaint : F → String}

/-- A flaw that is there, and no other one comes before it. -/
def IsFirst (spoils : F → Prop) (place : F → P) (f : F) : Prop :=
  spoils f ∧ ∀ g, spoils g → place f ≤ place g

/-- The complaint is about the first flaw, and there is none only if there are no flaws. -/
def Reports (spoils : F → Prop) (place : F → P) (complaint : F → String) : Option String → Prop
  | none => ∀ f, ¬ spoils f
  | some s => ∃ f, IsFirst spoils place f ∧ s = complaint f

variable {o : Option String}

/-- One check is made, and then the others: nothing that they look for comes before this flaw. -/
theorem Reports.check {p : Prop} [Decidable p] (f : F) (hf : spoils f ↔ p)
    (hfirst : ∀ g, spoils g → place f ≤ place g)
    (hrest : ¬ spoils f → Reports spoils place complaint o) :
    Reports spoils place complaint (if p then some (complaint f) else o) := by
  split <;> rename_i hp
  · exact ⟨f, ⟨hf.mpr hp, hfirst⟩, rfl⟩
  · exact hrest (mt hf.mp hp)

/-- The flaws are seen as flaws of something larger. -/
theorem Reports.map {spoils' : G → Prop} {place' : G → Q} {complaint' : G → String}
    (h : Reports spoils place complaint o) (g : F → G) (hspoils : ∀ f, spoils' (g f) ↔ spoils f)
    (hall : ∀ f', spoils' f' → ∃ f, f' = g f)
    (hplace : ∀ f f', place f ≤ place f' → place' (g f) ≤ place' (g f'))
    (hcomplaint : ∀ f, complaint' (g f) = complaint f) : Reports spoils' place' complaint' o := by
  cases o with
  | none =>
    intro f' hf'
    obtain ⟨f, rfl⟩ := hall f' hf'
    exact h f ((hspoils f).mp hf')
  | some s =>
    obtain ⟨f, ⟨hf, hfirst⟩, rfl⟩ := h
    refine ⟨g f, ⟨(hspoils f).mpr hf, fun f' hf' => ?_⟩, (hcomplaint f).symm⟩
    obtain ⟨f₂, rfl⟩ := hall f' hf'
    exact hplace _ _ (hfirst f₂ ((hspoils f₂).mp hf'))

end

variable {seen : List PartId} {earlier : List PartEntry}

/-- Where a part can have no other flaw, the first of its macros without a name is told. -/
theorem unnamedMacro_reports (e : PartEntry) (hothers : ∀ f, PartFlaw.Spoils earlier e f →
    ∃ i, f = .unnamedMacro i) : Reports (PartFlaw.Spoils earlier e) PartFlaw.place (PartFlaw.complaint e)
      (match e.macros.findIdx? (isAllBlank ·.name) with
      | some i => some (PartFlaw.complaint e (.unnamedMacro i))
      | none => none) := by
  cases hfind : e.macros.findIdx? (isAllBlank ·.name) with
  | none =>
    intro f hf
    obtain ⟨i, rfl⟩ := hothers f hf
    obtain ⟨m, hm, hblank⟩ := hf
    have hnamed := List.findIdx?_eq_none_iff.mp hfind m (List.mem_of_getElem? hm)
    exact absurd (trim_eq_empty_iff.mp hblank) (Bool.not_eq_true _ ▸ hnamed)
  | some i =>
    obtain ⟨hi, hblank, hbefore⟩ := List.findIdx?_eq_some_iff_getElem.mp hfind
    have hspoils : PartFlaw.Spoils earlier e (.unnamedMacro i) :=
      ⟨_, List.getElem?_eq_getElem hi, trim_eq_empty_iff.mpr hblank⟩
    refine ⟨.unnamedMacro i, ⟨hspoils, fun g hg => ?_⟩, rfl⟩
    obtain ⟨j, rfl⟩ := hothers g hg
    obtain ⟨m, hm, hblank'⟩ := hg
    obtain ⟨hj, rfl⟩ := List.getElem?_eq_some_iff.mp hm
    have hij : i ≤ j := not_lt.mp fun hji => hbefore j hji (trim_eq_empty_iff.mp hblank')
    exact Nat.add_le_add_left hij 3

theorem partComplaint?_reports (hseen : ∀ id, id ∈ seen ↔ id ∈ earlier.map (·.id)) (e : PartEntry) :
    Reports (PartFlaw.Spoils earlier e) PartFlaw.place (PartFlaw.complaint e)
      (partComplaint? seen e) := by
  refine Reports.check PartFlaw.blankId trim_eq_empty_iff ?_ fun hid => ?_
  · exact fun g _ => Nat.zero_le _
  refine Reports.check PartFlaw.repeatedId (hseen e.id).symm ?_ fun hfresh => ?_
  · intro g hg
    cases g with
    | blankId => exact absurd hg hid
    | repeatedId | noSource | unnamedMacro => dsimp only [PartFlaw.place]; omega
  refine Reports.check PartFlaw.noSource List.isEmpty_iff.symm ?_ fun hsource => ?_
  · intro g hg
    cases g with
    | blankId => exact absurd hg hid
    | repeatedId => exact absurd hg hfresh
    | noSource | unnamedMacro => dsimp only [PartFlaw.place]; omega
  refine unnamedMacro_reports e fun g hg => ?_
  cases g with
  | blankId => exact absurd hg hid
  | repeatedId => exact absurd hg hfresh
  | noSource => exact absurd hg hsource
  | unnamedMacro i => exact ⟨i, rfl⟩

theorem partsComplaint?_reports (hseen : ∀ id, id ∈ seen ↔ id ∈ earlier.map (·.id))
    (parts : List PartEntry) : Reports (Offence.Spoils earlier parts) Offence.place Offence.complaint
      (partsComplaint? seen parts) := by
  induction parts generalizing seen earlier with
  | nil => exact fun o ho => by simp [Offence.Spoils] at ho
  | cons e parts ih =>
    have hpart := partComplaint?_reports hseen e
    rw [partsComplaint?]
    cases hcomplaint : partComplaint? seen e with
    | some s =>
      rw [hcomplaint] at hpart
      obtain ⟨f, ⟨hf, hfirst⟩, rfl⟩ := hpart
      refine ⟨⟨0, e, f⟩, ⟨⟨rfl, by simpa using hf⟩, ?_⟩, rfl⟩
      rintro ⟨_ | i, e', f'⟩ ⟨he', hf'⟩
      · obtain rfl : e = e' := Option.some.inj he'
        exact Offence.place_le_iff.mpr (.inr ⟨rfl, hfirst f' (by simpa using hf')⟩)
      · exact Offence.place_le_iff.mpr (.inl (Nat.succ_pos i))
    | none =>
      rw [hcomplaint] at hpart
      have hseen' : ∀ id, id ∈ e.id :: seen ↔ id ∈ (earlier ++ [e]).map (·.id) := by
        intro id
        simp [hseen id, or_comm]
      -- this part has no flaw, so that all offences are those of the others, one place further on
      refine (ih hseen').map Offence.shift (fun o => ?_) ?_ (fun o o' h => ?_) fun o => rfl
      · simp [Offence.Spoils, Offence.shift]
      · rintro ⟨_ | i, e', f'⟩ ⟨he', hf'⟩
        · obtain rfl : e = e' := Option.some.inj he'
          exact absurd (by simpa using hf') (hpart f')
        · exact ⟨⟨i, e', f'⟩, rfl⟩
      · rw [Offence.place_le_iff] at h ⊢
        simpa [Offence.shift] using h

theorem complaint?_reports (c : Config) :
    Reports (Flaw.Spoils c) Flaw.place Flaw.complaint c.complaint? := by
  refine Reports.check Flaw.noScanner trim_eq_empty_iff ?_ fun hscanner => ?_
  · intro g _
    cases g <;> simp [Flaw.place, Prod.Lex.toLex_le_toLex]
  refine Reports.check Flaw.noCompiler trim_eq_empty_iff ?_ fun hcompiler => ?_
  · intro g hg
    cases g with
    | noScanner => exact absurd hg hscanner
    | noCompiler | noParts | offence => simp [Flaw.place, Prod.Lex.toLex_le_toLex]
  refine Reports.check Flaw.noParts List.isEmpty_iff.symm ?_ fun hparts => ?_
  · intro g hg
    cases g with
    | noScanner => exact absurd hg hscanner
    | noCompiler => exact absurd hg hcompiler
    | noParts | offence => simp [Flaw.place, Prod.Lex.toLex_le_toLex]
  have hoffences : Reports (Offence.Spoils [] c.parts) Offence.place Offence.complaint
      (partsComplaint? [] c.parts) := partsComplaint?_reports (fun id => Iff.rfl) c.parts
  refine hoffences.map Flaw.offence (fun o => Iff.rfl) (fun g hg => ?_) (fun o o' h => ?_) fun o => rfl
  · cases g with
    | noScanner => exact absurd hg hscanner
    | noCompiler => exact absurd hg hcompiler
    | noParts => exact absurd hg hparts
    | offence o => exact ⟨o, rfl⟩
  · exact Prod.Lex.toLex_le_toLex.mpr (.inr ⟨rfl, h⟩)

/-! ### Sound configurations -/

/-- Nothing is missing that a run needs, and every part is told by its id. -/
structure Sound (c : Config) : Prop where
  scanner : trim c.tools.scanner ≠ ""
  compiler : trim c.tools.compiler ≠ ""
  parts : c.parts ≠ []
  ids : ∀ e ∈ c.parts, trim e.id ≠ ""
  distinct : (c.parts.map (·.id)).Nodup
  sources : ∀ e ∈ c.parts, e.sources ≠ []
  macros : ∀ e ∈ c.parts, ∀ m ∈ e.macros, trim m.name ≠ ""

theorem nodup_iff_notMem_take {α : Type} {xs : List α} :
    xs.Nodup ↔ ∀ (i : Nat) (x : α), xs[i]? = some x → x ∉ xs.take i := by
  rw [List.Nodup, List.pairwise_iff_getElem]
  constructor
  · intro h i x hx hmem
    obtain ⟨hi, rfl⟩ := List.getElem?_eq_some_iff.mp hx
    obtain ⟨j, hj, hji⟩ := List.mem_take_iff_getElem.mp hmem
    have hlt : j < i := (Nat.lt_min.mp hj).1
    exact h j i (hlt.trans hi) hi hlt hji
  · intro h j i hj hi hlt heq
    exact h i _ (List.getElem?_eq_getElem hi)
      (List.mem_take_iff_getElem.mpr ⟨j, Nat.lt_min.mpr ⟨hlt, hj⟩, heq⟩)

/-- No id is repeated where none is that of an earlier part. -/
theorem distinct_iff {c : Config} : (c.parts.map (·.id)).Nodup ↔
    ∀ (i : Nat) (e : PartEntry), c.parts[i]? = some e → e.id ∉ (c.parts.take i).map (·.id) := by
  rw [nodup_iff_notMem_take]
  simp only [List.getElem?_map, List.map_take]
  constructor
  · exact fun h i e he => h i e.id (by rw [he]; rfl)
  · intro h i id hid
    obtain ⟨e, he, rfl⟩ := Option.map_eq_some_iff.mp hid
    exact h i e he

theorem sound_iff {c : Config} : c.Sound ↔ ∀ f : Flaw, ¬ f.Spoils c := by
  constructor
  · intro h f hf
    cases f with
    | noScanner => exact h.scanner hf
    | noCompiler => exact h.compiler hf
    | noParts => exact h.parts hf
    | offence o =>
      obtain ⟨i, e, f⟩ := o
      obtain ⟨he, hf⟩ : c.parts[i]? = some e ∧ f.Spoils (c.parts.take i) e := hf
      have hmem := List.mem_of_getElem? he
      cases f with
      | blankId => exact h.ids e hmem hf
      | repeatedId => exact distinct_iff.mp h.distinct i e he hf
      | noSource => exact h.sources e hmem hf
      | unnamedMacro j =>
        obtain ⟨m, hm, hblank⟩ := hf
        exact h.macros e hmem m (List.mem_of_getElem? hm) hblank
  · intro h
    have hpart : ∀ e ∈ c.parts, ∃ i, ∀ f : PartFlaw, ¬ f.Spoils (c.parts.take i) e := by
      intro e he
      obtain ⟨i, hi⟩ := List.mem_iff_getElem?.mp he
      exact ⟨i, fun f hf => h (.offence ⟨i, e, f⟩) ⟨hi, hf⟩⟩
    constructor
    case scanner => exact h .noScanner
    case compiler => exact h .noCompiler
    case parts => exact h .noParts
    case ids =>
      intro e he
      obtain ⟨i, hflaw⟩ := hpart e he
      exact hflaw .blankId
    case distinct => exact distinct_iff.mpr fun i e he hmem => h (.offence ⟨i, e, .repeatedId⟩) ⟨he, hmem⟩
    case sources =>
      intro e he
      obtain ⟨i, hflaw⟩ := hpart e he
      exact hflaw .noSource
    case macros =>
      intro e he m hm hblank
      obtain ⟨i, hflaw⟩ := hpart e he
      obtain ⟨j, hj⟩ := List.mem_iff_getElem?.mp hm
      exact hflaw (.unnamedMacro j) ⟨m, hj, hblank⟩

/-- A configuration is accepted, as it is, if and only if it is sound. Otherwise the first of its flaws
is reported. -/
theorem validate_sound_or_first_flaw (c : Config) :
    ((∃ c', c.validate = .ok c') ↔ c.Sound) ∧ (∀ c', c.validate = .ok c' → c' = c) ∧
      ∀ fault, c.validate = .error fault →
        ∃ f, IsFirst (Flaw.Spoils c) Flaw.place f ∧ fault = .config f.complaint := by
  have hreports := complaint?_reports c
  rw [sound_iff, validate]
  cases hcomplaint : c.complaint? with
  | none =>
    rw [hcomplaint] at hreports
    refine ⟨⟨fun _ => hreports, fun _ => ⟨c, rfl⟩⟩, fun c' h => ?_, nofun⟩
    exact (Except.ok.inj h).symm
  | some s =>
    rw [hcomplaint] at hreports
    obtain ⟨f, hfirst, rfl⟩ := hreports
    refine ⟨⟨nofun, fun h => absurd hfirst.1 (h f)⟩, nofun, fun fault h => ⟨f, hfirst, ?_⟩⟩
    exact (Except.error.inj h).symm

/-- A part with an unnamed macro, and behind it one that has the first part's id and no source. -/
def careless : Config :=
  let named : PartEntry := { PartEntry.empty "a" with sources := [⟨"a.cpp"⟩] }
  { usual with parts := [named,
    { PartEntry.empty "b" with sources := [⟨"b.cpp"⟩], macros := [⟨"M", "1"⟩, ⟨" ", ""⟩] },
    PartEntry.empty "a"] }

/-- The macro is reported, which comes first. -/
theorem validate_sound_or_first_flaw_careless :
    careless.validate =
      .error (.config "project part 'b' has a macro without a name (entry 2)") ∧
    ∃ f, IsFirst (Flaw.Spoils careless) Flaw.place f ∧
      .config "project part 'b' has a macro without a name (entry 2)" = Fault.config f.complaint := by
  have hvalidate : careless.validate =
      .error (.config "project part 'b' has a macro without a name (entry 2)") := by decide
  exact ⟨hvalidate, (validate_sound_or_first_flaw careless).2.2 _ hvalidate⟩

end Config
end PrecompiledHeaders
