import PrecompiledHeaders.Json.Reader
import Mathlib.Data.List.Basic
/-! Which texts are JSON, and what they write. Blanks may stand between all parts, the characters of a
string have several spellings, and a number is taken apart into its parts. The reader reads every such
text as what it writes. -/
namespace PrecompiledHeaders.Json

/-! ### Strings -/

/-- The letters that stand behind a backslash, and for what. -/
def shortEscapes : List (Char × Char) :=
  [('"', '"'), ('\\', '\\'), ('/', '/'), ('b', '\x08'), ('f', '\x0c'), ('n', '\n'), ('r', '\r'),
    ('t', '\t')]

/-- Four hexadecimal digits of that value. -/
def UnitDigits (u : Nat) (ds : List Char) : Prop :=
  ∃ a b c d i j k l, ds = [a, b, c, d] ∧ hexValue? a = some i ∧ hexValue? b = some j ∧
    hexValue? c = some k ∧ hexValue? d = some l ∧ u = ((i * 16 + j) * 16 + k) * 16 + l

/-- What stands behind a backslash when that follows, and the character that it writes; none if it is
a surrogate without its other half. -/
inductive Escape : Option Char → List Char → List Char → Prop
  | short {e c : Char} {s : List Char} (he : (e, c) ∈ shortEscapes) : Escape (some c) [e] s
  | unit {u : Nat} {ds s : List Char} (hu : UnitDigits u ds) (hl : isLead u = false)
      (ht : isTrail u = false) : Escape (some (Char.ofNat u)) ('u' :: ds) s
  | pair {u v : Nat} {ds es s : List Char} (hu : UnitDigits u ds) (hv : UnitDigits v es)
      (hl : isLead u = true) (ht : isTrail v = true) :
      Escape (some (Char.ofNat (pairValue u v))) ('u' :: (ds ++ '\\' :: 'u' :: es)) s
  | trail {u : Nat} {ds s : List Char} (hu : UnitDigits u ds) (ht : isTrail u = true) :
      Escape none ('u' :: ds) s
  | lead {u : Nat} {ds s : List Char} (hu : UnitDigits u ds) (hl : isLead u = true)
      (hn : ∀ v es more, UnitDigits v es → s = '\\' :: 'u' :: (es ++ more) → isTrail v = false) :
      Escape none ('u' :: ds) s

/-- What stands between two quotes, and the characters that it writes, if all of them are. -/
inductive Quoted : Option (List Char) → List Char → Prop
  | nil : Quoted (some []) []
  | plain {c : Char} {t : Option (List Char)} {s : List Char} (hq : c ≠ '"') (hb : c ≠ '\\')
      (hc : ¬ c.toNat < 0x20) (h : Quoted t s) : Quoted (t.map (c :: ·)) (c :: s)
  | escape {c : Option Char} {e : List Char} {t : Option (List Char)} {s : List Char}
      (he : Escape c e s) (h : Quoted t s) : Quoted (do return (← c) :: (← t)) ('\\' :: (e ++ s))

theorem unit?_digits {u : Nat} {ds : List Char} (h : UnitDigits u ds) (r : List Char) :
    unit? (ds ++ r) = some (u, r) := by
  obtain ⟨a, b, c, d, i, j, k, l, rfl, ha, hb, hc, hd, rfl⟩ := h
  simp [unit?, ha, hb, hc, hd]

theorem escape?_short {e c : Char} (h : (e, c) ∈ shortEscapes) (r : List Char) :
    escape? (e :: r) = some (some c, r) := by
  simp only [shortEscapes, List.mem_cons, Prod.mk.injEq, List.not_mem_nil, or_false] at h
  rcases h with ⟨rfl, rfl⟩ | ⟨rfl, rfl⟩ | ⟨rfl, rfl⟩ | ⟨rfl, rfl⟩ | ⟨rfl, rfl⟩ | ⟨rfl, rfl⟩ |
    ⟨rfl, rfl⟩ | ⟨rfl, rfl⟩ <;> rfl

theorem not_isTrail_of_isLead {u : Nat} (h : isLead u = true) : isTrail u = false := by
  simp only [isLead, isTrail, Bool.and_eq_true, decide_eq_true_eq, Bool.and_eq_false_iff,
    decide_eq_false_iff_not] at *
  omega

/-- A lead surrogate is left alone unless a trail surrogate is spelled right behind it. -/
theorem escape?_lead {u : Nat} {ds : List Char} {t : Option (List Char)} {s : List Char}
    (hu : UnitDigits u ds) (hl : isLead u = true)
    (hn : ∀ v es more, UnitDigits v es → s = '\\' :: 'u' :: (es ++ more) → isTrail v = false)
    (h : Quoted t s) (r : List Char) :
    escape? ('u' :: (ds ++ (s ++ '"' :: r))) = some (none, s ++ '"' :: r) := by
  have hlone : ∀ v es more, UnitDigits v es → s = '\\' :: 'u' :: (es ++ more) →
      escape? ('u' :: (ds ++ (s ++ '"' :: r))) = some (none, s ++ '"' :: r) := by
    rintro v es more hv rfl
    have hv' := unit?_digits hv (more ++ '"' :: r)
    simp [escape?, unit?_digits hu, hl, not_isTrail_of_isLead hl, hv', hn v es more hv rfl]
  cases h with
  | nil => simp [escape?, unit?_digits hu, hl, not_isTrail_of_isLead hl]
  | plain hq hb hc h => simp [escape?, unit?_digits hu, hl, not_isTrail_of_isLead hl, hb]
  | escape he h =>
    cases he with
    | @short e c _ he =>
      have hne : e ≠ 'u' := by
        rintro rfl
        revert he
        simp [shortEscapes]
      simp [escape?, unit?_digits hu, hl, not_isTrail_of_isLead hl, hne]
    | unit hv => exact hlone _ _ _ hv rfl
    | pair hv => exact hlone _ _ _ hv (by rw [List.cons_append, List.append_assoc])
    | trail hv => exact hlone _ _ _ hv rfl
    | lead hv => exact hlone _ _ _ hv rfl

theorem Escape.read {c : Option Char} {e : List Char} {t : Option (List Char)} {s : List Char}
    (he : Escape c e s) (h : Quoted t s) (r : List Char) :
    escape? (e ++ (s ++ '"' :: r)) = some (c, s ++ '"' :: r) := by
  cases he with
  | short he => exact escape?_short he _
  | unit hu hl ht => simp [escape?, unit?_digits hu, hl, ht]
  | pair hu hv hl ht =>
    simp [escape?, unit?_digits hu, unit?_digits hv, hl, ht, not_isTrail_of_isLead hl]
  | trail hu ht => simp [escape?, unit?_digits hu, ht]
  | lead hu hl hn => exact escape?_lead hu hl hn h r

/-- One step of fuel for each character and one for the closing quote. -/
theorem readString_quoted {t : Option (List Char)} {s : List Char} (h : Quoted t s) (r : List Char)
    {fuel : Nat} (hf : s.length < fuel) : readString fuel (s ++ '"' :: r) = some (t, r) := by
  induction h generalizing fuel with
  | nil =>
    obtain ⟨fuel, rfl⟩ := Nat.exists_eq_add_of_lt hf
    simp [readString]
  | plain hq hb hc _ ih =>
    rw [List.length_cons] at hf
    obtain ⟨fuel, rfl⟩ : ∃ n, fuel = n + 1 := ⟨fuel - 1, by omega⟩
    rw [List.cons_append, readString, if_neg hc, ih (by omega)]
    · rfl
    · exact hq
    · exact hb
  | @escape c e t s he h ih =>
    simp only [List.length_cons, List.length_append] at hf
    obtain ⟨fuel, rfl⟩ : ∃ n, fuel = n + 1 := ⟨fuel - 1, by omega⟩
    rw [List.cons_append, List.append_assoc, readString, he.read h r]
    simp only [bind, Option.bind_some, ih (show s.length < fuel by omega)]
    rfl

/-! ### Numbers -/

/-- What may follow a number without becoming part of it. -/
def Stops (r : List Char) : Prop :=
  ∀ c, r.head? = some c → isDigit c = false ∧ c ≠ '.' ∧ c ≠ 'e' ∧ c ≠ 'E'

def Digits (ds : List Char) : Prop := ds ≠ [] ∧ ∀ c ∈ ds, isDigit c = true

/-- A lone zero, or digits without a leading one. -/
def Whole (w : List Char) : Prop := w = ['0'] ∨ Digits w ∧ w.head? ≠ some '0'

def Fraction (f : List Char) : Prop := f = [] ∨ ∃ ds, Digits ds ∧ f = '.' :: ds

def Exponent (x : List Char) : Prop := x = [] ∨ ∃ e s ds, (e = 'e' ∨ e = 'E') ∧
  (s = [] ∨ s = ['+'] ∨ s = ['-']) ∧ Digits ds ∧ x = e :: (s ++ ds)

def minus (neg : Bool) : List Char := if neg then ['-'] else []

/-- The number with these parts: an integer if there is nothing but digits and a sign at most, and it
is not minus zero. -/
def number (neg : Bool) (w f x : List Char) : Json :=
  if f = [] ∧ x = [] ∧ ¬ (neg = true ∧ digitsValue w = 0) then
    .int (if neg then -digitsValue w else digitsValue w)
  else .decimal (String.ofList (minus neg ++ w ++ f ++ x))

/-- What is behind digits is no digit. -/
def Ends (r : List Char) : Prop := ∀ c, r.head? = some c → isDigit c = false

theorem Stops.ends {r : List Char} (h : Stops r) : Ends r := fun c hc => (h c hc).1

theorem span_digits {ds r : List Char} (hd : ∀ c ∈ ds, isDigit c = true) (hr : Ends r) :
    (ds ++ r).takeWhile isDigit = ds ∧ (ds ++ r).dropWhile isDigit = r := by
  have ht : r.takeWhile isDigit = [] ∧ r.dropWhile isDigit = r := by
    cases r with
    | nil => simp
    | cons c r => simp [hr c rfl]
  rw [List.takeWhile_append_of_pos hd, List.dropWhile_append_of_pos hd, ht.1, ht.2]
  simp

theorem digits1?_append {ds r : List Char} (h : Digits ds) (hr : Ends r) :
    digits1? (ds ++ r) = some (ds, r) := by
  obtain ⟨ht, hd⟩ := span_digits h.2 hr
  obtain ⟨c, cs, rfl⟩ := List.exists_cons_of_ne_nil h.1
  rw [digits1?, ht, hd]

theorem whole?_append {w r : List Char} (h : Whole w) (hr : Ends r) :
    whole? (w ++ r) = some (w, r) := by
  rcases h with rfl | ⟨hd, hz⟩
  · have hh : r.head?.any isDigit = false := by
      cases r with
      | nil => rfl
      | cons c r => exact hr c rfl
    simp [whole?, hh]
  · have hdigits := digits1?_append hd hr
    obtain ⟨c, cs, rfl⟩ := List.exists_cons_of_ne_nil hd.1
    have hc : c ≠ '0' := fun h => hz (congrArg some h)
    rw [List.cons_append] at hdigits ⊢
    simp [whole?, hc, hdigits]

theorem fraction?_append {f r : List Char} (h : Fraction f) (hr : Ends r)
    (hdot : r.head? ≠ some '.') : fraction? (f ++ r) = some (f, r) := by
  rcases h with rfl | ⟨ds, hd, rfl⟩
  · cases r with
    | nil => rfl
    | cons c r =>
      have hc : c ≠ '.' := fun h => hdot (congrArg some h)
      simp [fraction?, hc]
  · simp [fraction?, digits1?_append hd hr]

theorem exponent?_append {x r : List Char} (h : Exponent x) (hr : Stops r) :
    exponent? (x ++ r) = some (x, r) := by
  rcases h with rfl | ⟨e, s, ds, he, hs, hd, rfl⟩
  · cases r with
    | nil => rfl
    | cons c r => simp [exponent?, (hr c rfl).2.2]
  · have hdigits := digits1?_append hd hr.ends
    obtain ⟨c, cs, rfl⟩ := List.exists_cons_of_ne_nil hd.1
    have hc := hd.2 c List.mem_cons_self
    have hsign : ¬ (c = '+' ∨ c = '-') := by
      rintro (rfl | rfl) <;> revert hc <;> decide
    rw [List.cons_append] at hdigits
    rcases hs with rfl | rfl | rfl
    · simp [exponent?, he, hsign, hdigits]
    · simp [exponent?, he, hdigits]
    · simp [exponent?, he, hdigits]

theorem Whole.head {w : List Char} (h : Whole w) : ∃ c cs, w = c :: cs ∧ isDigit c = true := by
  rcases h with rfl | ⟨hd, -⟩
  · exact ⟨_, _, rfl, by decide⟩
  · obtain ⟨c, cs, rfl⟩ := List.exists_cons_of_ne_nil hd.1
    exact ⟨c, cs, rfl, hd.2 c List.mem_cons_self⟩

/-- The parts are read one after the other. -/
theorem readNumber_minus {neg : Bool} {cs : List Char} (h : neg = false → cs.head? ≠ some '-') :
    readNumber (minus neg ++ cs) = (do
      let (w, cs) ← whole? cs
      let (f, cs) ← fraction? cs
      let (x, cs) ← exponent? cs
      return (number neg w f x, cs)) := by
  have hnumber : ∀ (w f x r : List Char),
      (if f.isEmpty && x.isEmpty && !(neg && digitsValue w == 0) then
        some (Json.int (if neg then -digitsValue w else digitsValue w), r)
      else some (.decimal (String.ofList (minus neg ++ w ++ f ++ x)), r)) =
        some (number neg w f x, r) := by
    intro w f x r
    by_cases hint : f = [] ∧ x = [] ∧ ¬ (neg = true ∧ digitsValue w = 0)
    · rw [number, if_pos hint, if_pos (by simpa [and_assoc, imp_iff_not_or] using hint)]
    · rw [number, if_neg hint, if_neg (by simpa [and_assoc, imp_iff_not_or] using hint)]
  simp only [pure, ← hnumber]
  cases neg with
  | true => rw [show minus true ++ cs = '-' :: cs from rfl, readNumber]; rfl
  | false =>
    rw [show minus false ++ cs = cs from rfl, readNumber]
    · rfl
    · rintro rest rfl
      exact h rfl rfl

/-- No part of a number runs on into the next one. -/
theorem readNumber_parts {neg : Bool} {w f x r : List Char} (hw : Whole w) (hf : Fraction f)
    (hx : Exponent x) (hr : Stops r) :
    readNumber (minus neg ++ (w ++ (f ++ (x ++ r)))) = some (number neg w f x, r) := by
  have hxr : Ends (x ++ r) ∧ (x ++ r).head? ≠ some '.' := by
    rcases hx with rfl | ⟨e, s, ds, he, -, -, rfl⟩
    · exact ⟨hr.ends, fun h => (hr _ h).2.1 rfl⟩
    · refine ⟨fun c hc => ?_, fun h => ?_⟩
      · cases hc
        rcases he with rfl | rfl <;> decide
      · cases h
        revert he
        decide
  have hfxr : Ends (f ++ (x ++ r)) := by
    rcases hf with rfl | ⟨ds, -, rfl⟩
    · exact hxr.1
    · intro c hc
      cases hc
      decide
  have hminus : (w ++ (f ++ (x ++ r))).head? ≠ some '-' := by
    obtain ⟨c, cs, rfl, hc⟩ := hw.head
    rintro ⟨rfl⟩
    revert hc
    decide
  rw [readNumber_minus fun _ => hminus, whole?_append hw hfxr]
  simp only [bind, Option.bind_some, fraction?_append hf hxr.1 hxr.2, exponent?_append hx hr, pure]

/-! ### Blanks -/

def Blank (s : List Char) : Prop := ∀ c ∈ s, isSpace c = true

theorem blank_nil : Blank [] := fun _ h => absurd h List.not_mem_nil

theorem skipSpace_cons {c : Char} (r : List Char) (h : isSpace c = false) :
    skipSpace (c :: r) = c :: r := by
  simp [skipSpace, h]

theorem skipSpace_blank {s : List Char} (hs : Blank s) (r : List Char) :
    skipSpace (s ++ r) = skipSpace r := List.dropWhile_append_of_pos hs

theorem readValue_blank {s : List Char} (hs : Blank s) (fuel : Nat) (r : List Char) :
    readValue fuel (s ++ r) = readValue fuel r := by
  cases fuel with
  | zero => rw [readValue, readValue]
  | succ fuel => rw [readValue, readValue, skipSpace_blank hs]

theorem readField_blank {s : List Char} (hs : Blank s) (fuel : Nat) (r : List Char) :
    readField fuel (s ++ r) = readField fuel r := by
  cases fuel with
  | zero => rw [readField, readField]
  | succ fuel => rw [readField, readField, skipSpace_blank hs]

/-- Blanks, a comma and what closes a list or an object end a number. -/
theorem stops_blank {s : List Char} (hs : Blank s) {c : Char} (r : List Char)
    (h : c = ',' ∨ c = ']' ∨ c = '\x7d') : Stops (s ++ c :: r) := by
  intro d hd
  cases s with
  | nil =>
    cases hd
    rcases h with rfl | rfl | rfl <;> decide
  | cons b s =>
    cases hd
    have hb := hs _ List.mem_cons_self
    simp only [isSpace, Bool.or_eq_true, decide_eq_true_eq] at hb
    rcases hb with ((rfl | rfl) | rfl) | rfl <;> decide

/-! ### Values -/

/-- A string, if it is a text. -/
def ofQuoted : Option (List Char) → Json
  | some cs => .text (String.ofList cs)
  | none => .broken

/-- What a piece of JSON writes: a value, the items or fields of a list or an object behind the first
one, or one field. -/
inductive Phrase where
  | value (x : Json)
  | items (xs : List Json)
  | field (f : Option (List Char) × Json)
  | fields (fs : Option (List (String × Json)))

/-- The text writes the phrase. Blanks stand between its parts, not around it, and what closes a list
or an object belongs to what is behind the first item or field. -/
inductive Writes : Phrase → List Char → Prop
  | null : Writes (.value .null) ['n', 'u', 'l', 'l']
  | yes : Writes (.value (.bool true)) ['t', 'r', 'u', 'e']
  | no : Writes (.value (.bool false)) ['f', 'a', 'l', 's', 'e']
  | number (neg : Bool) {w f x : List Char} (hw : Whole w) (hf : Fraction f) (hx : Exponent x) :
      Writes (.value (number neg w f x)) (minus neg ++ (w ++ (f ++ x)))
  | string {t : Option (List Char)} {s : List Char} (h : Quoted t s) :
      Writes (.value (ofQuoted t)) ('"' :: (s ++ ['"']))
  | emptyList {s : List Char} (hs : Blank s) : Writes (.value (.list [])) ('[' :: (s ++ [']']))
  | list {x : Json} {xs : List Json} {s a b : List Char} (hs : Blank s)
      (ha : Writes (.value x) a) (hb : Writes (.items xs) b) :
      Writes (.value (.list (x :: xs))) ('[' :: (s ++ (a ++ b)))
  | emptyObject {s : List Char} (hs : Blank s) :
      Writes (.value (.object [])) ('\x7b' :: (s ++ ['\x7d']))
  | object {f : Option (List Char) × Json} {fs : Option (List (String × Json))} {s a b : List Char}
      (hs : Blank s) (ha : Writes (.field f) a) (hb : Writes (.fields fs) b) :
      Writes (.value (ofFields (consField f fs))) ('\x7b' :: (s ++ (a ++ b)))
  | noItem {s : List Char} (hs : Blank s) : Writes (.items []) (s ++ [']'])
  | item {x : Json} {xs : List Json} {s t a b : List Char} (hs : Blank s) (ht : Blank t)
      (ha : Writes (.value x) a) (hb : Writes (.items xs) b) :
      Writes (.items (x :: xs)) (s ++ ',' :: (t ++ (a ++ b)))
  | field {name : Option (List Char)} {x : Json} {n s t a : List Char} (hn : Quoted name n)
      (hs : Blank s) (ht : Blank t) (ha : Writes (.value x) a) :
      Writes (.field (name, x)) ('"' :: (n ++ '"' :: (s ++ ':' :: (t ++ a))))
  | noField {s : List Char} (hs : Blank s) : Writes (.fields (some [])) (s ++ ['\x7d'])
  | more {f : Option (List Char) × Json} {fs : Option (List (String × Json))} {s t a b : List Char}
      (hs : Blank s) (ht : Blank t) (ha : Writes (.field f) a) (hb : Writes (.fields fs) b) :
      Writes (.fields (consField f fs)) (s ++ ',' :: (t ++ (a ++ b)))

/-- The text writes the value, with blanks around it. -/
def Denotes (s : String) (x : Json) : Prop :=
  ∃ u cs v, Blank u ∧ Writes (.value x) cs ∧ Blank v ∧ s.toList = u ++ (cs ++ v)

/-! ### Reading -/

theorem isSpace_number {c : Char} (h : isDigit c = true ∨ c = '-') : isSpace c = false := by
  by_contra hs
  simp only [isSpace, Bool.not_eq_false, Bool.or_eq_true, decide_eq_true_eq] at hs
  rcases hs with ((rfl | rfl) | rfl) | rfl <;> (revert h; decide)

theorem number_head {w : List Char} (hw : Whole w) (neg : Bool) (cs : List Char) :
    ∃ c ds, minus neg ++ (w ++ cs) = c :: ds ∧ (isDigit c = true ∨ c = '-') := by
  obtain ⟨c, ds, rfl, hc⟩ := hw.head
  cases neg with
  | true => exact ⟨_, _, rfl, Or.inr rfl⟩
  | false => exact ⟨_, _, rfl, Or.inl hc⟩

/-- The first character of a value is no blank and closes nothing. -/
theorem value_head {x : Json} {cs : List Char} (h : Writes (.value x) cs) :
    ∃ c ds, cs = c :: ds ∧ isSpace c = false ∧ c ≠ ']' := by
  cases h with
  | number neg hw hf hx =>
    obtain ⟨c, ds, hcs, hc⟩ := number_head hw neg _
    exact ⟨c, ds, hcs, isSpace_number hc, by rintro rfl; revert hc; decide⟩
  | _ => exact ⟨_, _, rfl, by decide, by decide⟩

theorem field_head {f : Option (List Char) × Json} {cs : List Char} (h : Writes (.field f) cs) :
    ∃ ds, cs = '"' :: ds := by
  cases h with
  | field => exact ⟨_, rfl⟩

theorem stops_items {xs : List Json} {cs : List Char} (h : Writes (.items xs) cs) (r : List Char) :
    Stops (cs ++ r) := by
  cases h with
  | noItem hs =>
    rw [List.append_assoc]
    exact stops_blank hs _ (by decide)
  | item hs =>
    rw [List.append_assoc]
    exact stops_blank hs _ (by decide)

theorem stops_fields {fs : Option (List (String × Json))} {cs : List Char}
    (h : Writes (.fields fs) cs) (r : List Char) : Stops (cs ++ r) := by
  cases h with
  | noField hs =>
    rw [List.append_assoc]
    exact stops_blank hs _ (by decide)
  | more hs =>
    rw [List.append_assoc]
    exact stops_blank hs _ (by decide)

theorem readValue_number {c : Char} {cs : List Char} (h : isDigit c = true ∨ c = '-') (fuel : Nat) :
    readValue (fuel + 1) (c :: cs) = readNumber (c :: cs) := by
  have hs := isSpace_number h
  have h₁ : c ≠ '"' := by rintro rfl; revert h; decide
  have h₂ : c ≠ '[' := by rintro rfl; revert h; decide
  have h₃ : c ≠ '\x7b' := by rintro rfl; revert h; decide
  have h₄ : c ≠ 'n' := by rintro rfl; revert h; decide
  have h₅ : c ≠ 't' := by rintro rfl; revert h; decide
  have h₆ : c ≠ 'f' := by rintro rfl; revert h; decide
  rw [readValue, skipSpace_cons _ hs]
  simp [h₁, h₂, h₃, h₄, h₅, h₆]

theorem readString_closed {t : Option (List Char)} {s : List Char} (h : Quoted t s) (r : List Char) :
    readString ((s ++ '"' :: r).length + 1) (s ++ '"' :: r) = some (t, r) :=
  readString_quoted h r (by simp only [List.length_append]; omega)

section

variable {x : Json} {xs : List Json} {name : Option (List Char)} {f : Option (List Char) × Json}
  {fs : Option (List (String × Json))} {s t a b r : List Char} {fuel : Nat}

theorem readValue_string {n : List Char} (h : Quoted name n) (r : List Char) :
    readValue (fuel + 1) ('"' :: (n ++ '"' :: r)) = some (ofQuoted name, r) := by
  rw [readValue, skipSpace_cons _ (by decide)]
  simp only [readString_closed h, bind, Option.bind_some]
  cases name <;> rfl

theorem readValue_emptyList (hs : Blank s) :
    readValue (fuel + 1) ('[' :: (s ++ ']' :: r)) = some (.list [], r) := by
  rw [readValue, skipSpace_cons _ (by decide)]
  simp [skipSpace_blank hs, skipSpace_cons _ (show isSpace ']' = false by decide)]

theorem readValue_list (hs : Blank s) (ha : Writes (.value x) a)
    (hx : readValue fuel (a ++ b) = some (x, b)) (hxs : readItems fuel b = some (xs, r)) :
    readValue (fuel + 1) ('[' :: (s ++ (a ++ b))) = some (.list (x :: xs), r) := by
  obtain ⟨d, ds, rfl, hsp, hne⟩ := value_head ha
  rw [List.cons_append] at hx ⊢
  rw [readValue, skipSpace_cons _ (by decide)]
  simp only [skipSpace_blank hs]
  rw [skipSpace_cons _ hsp]
  simp [hne, hx, hxs]

theorem readValue_emptyObject (hs : Blank s) :
    readValue (fuel + 1) ('\x7b' :: (s ++ '\x7d' :: r)) = some (.object [], r) := by
  rw [readValue, skipSpace_cons _ (by decide)]
  simp [skipSpace_blank hs, skipSpace_cons _ (show isSpace '\x7d' = false by decide)]

theorem readValue_object (hs : Blank s) (ha : Writes (.field f) a)
    (hf : readField fuel (a ++ b) = some (f, b)) (hfs : readFields fuel b = some (fs, r)) :
    readValue (fuel + 1) ('\x7b' :: (s ++ (a ++ b))) = some (ofFields (consField f fs), r) := by
  obtain ⟨ds, rfl⟩ := field_head ha
  rw [List.cons_append] at hf ⊢
  rw [readValue, skipSpace_cons _ (by decide)]
  simp only [skipSpace_blank hs]
  rw [skipSpace_cons _ (by decide)]
  simp [hf, hfs]

theorem readItems_noItem (hs : Blank s) :
    readItems (fuel + 1) (s ++ ']' :: r) = some ([], r) := by
  rw [readItems, skipSpace_blank hs]
  simp [skipSpace_cons _ (show isSpace ']' = false by decide)]

theorem readItems_item (hs : Blank s) (ht : Blank t) (hx : readValue fuel (a ++ b) = some (x, b))
    (hxs : readItems fuel b = some (xs, r)) :
    readItems (fuel + 1) (s ++ ',' :: (t ++ (a ++ b))) = some (x :: xs, r) := by
  rw [readItems, skipSpace_blank hs, skipSpace_cons _ (by decide)]
  simp [readValue_blank ht, hx, hxs]

theorem readField_field {n : List Char} (hn : Quoted name n) (hs : Blank s) (ht : Blank t)
    (hx : readValue fuel (a ++ r) = some (x, r)) :
    readField (fuel + 1) ('"' :: (n ++ '"' :: (s ++ ':' :: (t ++ (a ++ r))))) =
      some ((name, x), r) := by
  rw [readField, skipSpace_cons _ (by decide)]
  simp only [readString_closed hn, bind, Option.bind_some]
  rw [skipSpace_blank hs, skipSpace_cons _ (by decide)]
  simp [readValue_blank ht, hx]

theorem readFields_noField (hs : Blank s) :
    readFields (fuel + 1) (s ++ '\x7d' :: r) = some (some [], r) := by
  rw [readFields, skipSpace_blank hs]
  simp [skipSpace_cons _ (show isSpace '\x7d' = false by decide)]

theorem readFields_more (hs : Blank s) (ht : Blank t) (hf : readField fuel (a ++ b) = some (f, b))
    (hfs : readFields fuel b = some (fs, r)) :
    readFields (fuel + 1) (s ++ ',' :: (t ++ (a ++ b))) = some (consField f fs, r) := by
  rw [readFields, skipSpace_blank hs, skipSpace_cons _ (by decide)]
  simp [readField_blank ht, hf, hfs]

end

/-- What the reader makes of a phrase, whatever stands behind it. -/
def Phrase.Read (cs : List Char) : Phrase → Prop
  | .value x => ∀ fuel r, cs.length ≤ fuel → Stops r → readValue fuel (cs ++ r) = some (x, r)
  | .items xs => ∀ fuel r, cs.length ≤ fuel → readItems fuel (cs ++ r) = some (xs, r)
  | .field f => ∀ fuel r, cs.length ≤ fuel → Stops r → readField fuel (cs ++ r) = some (f, r)
  | .fields fs => ∀ fuel r, cs.length ≤ fuel → readFields fuel (cs ++ r) = some (fs, r)

/-- No piece of JSON is empty, so each step of the reader has fuel. -/
theorem Writes.exists_fuel {phrase : Phrase} {cs : List Char} (h : Writes phrase cs) (fuel : Nat)
    (hf : cs.length ≤ fuel) : ∃ n, fuel = n + 1 := by
  have hpos : 0 < cs.length := by
    cases h with
    | number neg hw hf hx =>
      obtain ⟨c, ds, hcs, -⟩ := number_head hw neg _
      rw [hcs]
      exact Nat.succ_pos _
    | _ => simp only [List.length_cons, List.length_append]; omega
  exact ⟨fuel - 1, by omega⟩

/-- By induction on how the phrase is written; each part takes its share of the fuel. -/
theorem Writes.read {phrase : Phrase} {cs : List Char} (h : Writes phrase cs) : phrase.Read cs := by
  have hfuel := h.exists_fuel
  induction h with
  | null | yes | no =>
    intro fuel r hf _
    obtain ⟨fuel, rfl⟩ := hfuel _ hf
    simp [readValue, skipSpace, isSpace, word?]
  | number neg hw hfr hx =>
    intro fuel r hf hr
    obtain ⟨fuel, rfl⟩ := hfuel _ hf
    have hread := @readNumber_parts neg _ _ _ r hw hfr hx hr
    obtain ⟨c, ds, hcs, hc⟩ := number_head hw neg (_ ++ (_ ++ r))
    simp only [List.append_assoc]
    rw [hcs] at hread ⊢
    rw [readValue_number hc, hread]
  | string hq =>
    intro fuel r hf _
    obtain ⟨fuel, rfl⟩ := hfuel _ hf
    rw [List.cons_append, List.append_assoc]
    exact readValue_string hq r
  | emptyList hs =>
    intro fuel r hf _
    obtain ⟨fuel, rfl⟩ := hfuel _ hf
    rw [List.cons_append, List.append_assoc]
    exact readValue_emptyList hs
  | list hs ha hb iha ihb =>
    intro fuel r hf _
    obtain ⟨fuel, rfl⟩ := hfuel _ hf
    simp only [List.length_cons, List.length_append] at hf
    simp only [List.cons_append, List.append_assoc]
    exact readValue_list hs ha (iha ha.exists_fuel fuel _ (by omega) (stops_items hb r))
      (ihb hb.exists_fuel fuel r (by omega))
  | emptyObject hs =>
    intro fuel r hf _
    obtain ⟨fuel, rfl⟩ := hfuel _ hf
    rw [List.cons_append, List.append_assoc]
    exact readValue_emptyObject hs
  | object hs ha hb iha ihb =>
    intro fuel r hf _
    obtain ⟨fuel, rfl⟩ := hfuel _ hf
    simp only [List.length_cons, List.length_append] at hf
    simp only [List.cons_append, List.append_assoc]
    exact readValue_object hs ha (iha ha.exists_fuel fuel _ (by omega) (stops_fields hb r))
      (ihb hb.exists_fuel fuel r (by omega))
  | noItem hs =>
    intro fuel r hf
    obtain ⟨fuel, rfl⟩ := hfuel _ hf
    rw [List.append_assoc]
    exact readItems_noItem hs
  | item hs ht ha hb iha ihb =>
    intro fuel r hf
    obtain ⟨fuel, rfl⟩ := hfuel _ hf
    simp only [List.length_cons, List.length_append] at hf
    simp only [List.cons_append, List.append_assoc]
    exact readItems_item hs ht (iha ha.exists_fuel fuel _ (by omega) (stops_items hb r))
      (ihb hb.exists_fuel fuel r (by omega))
  | field hn hs ht ha iha =>
    intro fuel r hf hr
    obtain ⟨fuel, rfl⟩ := hfuel _ hf
    simp only [List.length_cons, List.length_append] at hf
    simp only [List.cons_append, List.append_assoc]
    exact readField_field hn hs ht (iha ha.exists_fuel fuel r (by omega) hr)
  | noField hs =>
    intro fuel r hf
    obtain ⟨fuel, rfl⟩ := hfuel _ hf
    rw [List.append_assoc]
    exact readFields_noField hs
  | more hs ht ha hb iha ihb =>
    intro fuel r hf
    obtain ⟨fuel, rfl⟩ := hfuel _ hf
    simp only [List.length_cons, List.length_append] at hf
    simp only [List.cons_append, List.append_assoc]
    exact readFields_more hs ht (iha ha.exists_fuel fuel _ (by omega) (stops_fields hb r))
      (ihb hb.exists_fuel fuel r (by omega))

/-- A text is read as the value that it writes. -/
theorem Denotes.read {s : String} {x : Json} (h : Denotes s x) : read s = some x := by
  obtain ⟨u, cs, v, hu, hx, hv, hs⟩ := h
  have hstop : Stops v := by
    intro d hd
    cases v with
    | nil => cases hd
    | cons b v =>
      cases hd
      have hb := hv _ List.mem_cons_self
      simp only [isSpace, Bool.or_eq_true, decide_eq_true_eq] at hb
      rcases hb with ((rfl | rfl) | rfl) | rfl <;> decide
  have hread := hx.read (2 * s.toList.length + 2) v
    (by rw [hs]; simp only [List.length_append]; omega) hstop
  have hend : skipSpace v = [] := by
    have := skipSpace_blank hv []
    rwa [List.append_nil] at this
  rw [Json.read]
  simp only [bind, Option.bind]
  rw [hs, readValue_blank hu, ← hs, hread]
  simp [hend]

end PrecompiledHeaders.Json
