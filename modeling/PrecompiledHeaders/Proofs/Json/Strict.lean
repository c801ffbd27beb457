import Mathlib.Data.List.TakeWhile
import PrecompiledHeaders.Proofs.Json.Grammar
/-! The reader reads nothing but JSON. Each part of it takes away from the text what it has read, and
what it has read is a piece of JSON that writes the result. With the converse, reading a text means
finding the value that it writes, and no text writes two. -/
namespace PrecompiledHeaders.Json

/-! ### Strings -/

theorem unit?_eq_some {u : Nat} {cs r : List Char} (h : unit? cs = some (u, r)) :
    ∃ ds, UnitDigits u ds ∧ cs = ds ++ r := by
  match cs with
  | a :: b :: c :: d :: rest =>
    simp only [unit?, bind, pure, Option.bind_eq_some_iff, Option.some.injEq, Prod.mk.injEq] at h
    obtain ⟨i, hi, j, hj, k, hk, l, hl, rfl, rfl⟩ := h
    exact ⟨[a, b, c, d], ⟨a, b, c, d, i, j, k, l, rfl, hi, hj, hk, hl, rfl⟩, rfl⟩
  | [] | [_] | [_, _] | [_, _, _] => cases h

/-- Behind a lead surrogate the text is searched for the other half. -/
theorem escape?_unit {c : Option Char} {cs r : List Char} (h : escape? ('u' :: cs) = some (c, r)) :
    ∃ e, Escape c e r ∧ 'u' :: cs = e ++ r := by
  simp only [escape?, bind, pure, Option.bind_eq_some_iff, Prod.exists] at h
  obtain ⟨u, rest, hu, h⟩ := h
  obtain ⟨ds, hds, rfl⟩ := unit?_eq_some hu
  split at h
  case isTrue ht =>
    cases h
    exact ⟨_, .trail hds ht, rfl⟩
  case isFalse ht =>
    rw [Bool.not_eq_true] at ht
    split at h
    case isFalse hl =>
      cases h
      exact ⟨_, .unit hds (Bool.not_eq_true _ ▸ hl) ht, rfl⟩
    case isTrue hl =>
      split at h
      case h_1 more =>
        simp only [Option.bind_eq_some_iff, Prod.exists] at h
        obtain ⟨v, after, hv, h⟩ := h
        obtain ⟨es, hes, rfl⟩ := unit?_eq_some hv
        split at h
        case isTrue htv =>
          cases h
          exact ⟨_, .pair hds hes hl htv, by simp⟩
        case isFalse htv =>
          cases h
          refine ⟨_, .lead hds hl fun v' es' more hes' heq => ?_, rfl⟩
          simp only [List.cons.injEq, true_and] at heq
          have hv' := unit?_digits hes' more
          rw [← heq, unit?_digits hes] at hv'
          cases hv'
          exact Bool.not_eq_true _ ▸ htv
      case h_2 hno =>
        cases h
        exact ⟨_, .lead hds hl fun v es more _ heq => absurd heq (hno _), rfl⟩

theorem escape?_eq_some {c : Option Char} {cs r : List Char} (h : escape? cs = some (c, r)) :
    ∃ e, Escape c e r ∧ cs = e ++ r := by
  have hunit := h
  unfold escape? at h
  split at h
  case h_9 => exact escape?_unit hunit
  case h_10 => cases h
  all_goals
    cases h
    exact ⟨[_], .short (by decide), rfl⟩

/-- Whether a surrogate is alone is seen in the text up to the closing quote. -/
theorem Escape.closed {c : Option Char} {e s r : List Char} (h : Escape c e (s ++ r)) :
    Escape c e s := by
  generalize hs : s ++ r = sr at h
  cases h with
  | short he => exact .short he
  | unit hu hl ht => exact .unit hu hl ht
  | pair hu hv hl ht => exact .pair hu hv hl ht
  | trail hu ht => exact .trail hu ht
  | lead hu hl hn =>
    refine .lead hu hl fun v es more hv heq => hn v es (more ++ r) hv ?_
    rw [← hs, heq]
    simp

theorem readString_eq_some {fuel : Nat} {t : Option (List Char)} {cs r : List Char}
    (h : readString fuel cs = some (t, r)) : ∃ s, Quoted t s ∧ cs = s ++ '"' :: r := by
  induction fuel generalizing t cs with
  | zero => cases h
  | succ fuel ih =>
    match cs with
    | [] => cases h
    | c :: rest =>
      by_cases hq : c = '"'
      · subst c
        cases h
        exact ⟨[], .nil, rfl⟩
      by_cases hb : c = '\\'
      · subst c
        simp only [readString, bind, pure, Option.bind_eq_some_iff, Prod.exists, Option.some.injEq,
          Prod.mk.injEq] at h
        obtain ⟨c, rest, hc, t, r, ht, rfl, rfl⟩ := h
        obtain ⟨e, he, rfl⟩ := escape?_eq_some hc
        obtain ⟨s, hs, rfl⟩ := ih ht
        exact ⟨_, .escape he.closed hs, by simp⟩
      · rw [readString] at h
        · split at h
          · cases h
          · simp only [bind, pure, Option.bind_eq_some_iff, Prod.exists, Option.some.injEq,
              Prod.mk.injEq] at h
            obtain ⟨t, r, ht, rfl, rfl⟩ := h
            obtain ⟨s, hs, rfl⟩ := ih ht
            exact ⟨_, .plain hq hb ‹_› hs, rfl⟩
        · exact hq
        · exact hb

/-! ### Numbers -/

theorem digits1?_eq_some {cs ds r : List Char} (h : digits1? cs = some (ds, r)) :
    Digits ds ∧ cs = ds ++ r := by
  rw [digits1?] at h
  split at h
  · cases h
  · case h_2 hne =>
    cases h
    exact ⟨⟨hne, fun c hc => List.mem_takeWhile_imp hc⟩, List.takeWhile_append_dropWhile.symm⟩

theorem whole?_eq_some {cs w r : List Char} (h : whole? cs = some (w, r)) :
    Whole w ∧ cs = w ++ r := by
  unfold whole? at h
  split at h
  case h_1 rest =>
    split at h
    · cases h
    · cases h
      exact ⟨Or.inl rfl, rfl⟩
  case h_2 hzero =>
    obtain ⟨hd, rfl⟩ := digits1?_eq_some h
    refine ⟨Or.inr ⟨hd, fun hw => ?_⟩, rfl⟩
    obtain ⟨w, rfl⟩ := List.head?_eq_some_iff.mp hw
    exact hzero _ rfl

theorem fraction?_eq_some {cs f r : List Char} (h : fraction? cs = some (f, r)) :
    Fraction f ∧ cs = f ++ r := by
  unfold fraction? at h
  split at h
  · simp only [bind, pure, Option.bind_eq_some_iff, Prod.exists, Option.some.injEq,
      Prod.mk.injEq] at h
    obtain ⟨ds, r, hds, rfl, rfl⟩ := h
    obtain ⟨hd, rfl⟩ := digits1?_eq_some hds
    exact ⟨Or.inr ⟨ds, hd, rfl⟩, rfl⟩
  · cases h
    exact ⟨Or.inl rfl, rfl⟩

theorem exponent?_eq_some {cs x r : List Char} (h : exponent? cs = some (x, r)) :
    Exponent x ∧ cs = x ++ r := by
  match cs with
  | [] =>
    cases h
    exact ⟨Or.inl rfl, rfl⟩
  | e :: rest =>
    by_cases he : e = 'e' ∨ e = 'E'
    · match rest with
      | [] => simp [exponent?, he] at h
      | s :: more =>
        simp only [exponent?, if_pos he, bind, pure] at h
        by_cases hs : s = '+' ∨ s = '-'
        · simp only [if_pos hs, Option.bind_eq_some_iff, Prod.exists, Option.some.injEq,
            Prod.mk.injEq] at h
          obtain ⟨ds, r, hds, rfl, rfl⟩ := h
          obtain ⟨hd, rfl⟩ := digits1?_eq_some hds
          exact ⟨Or.inr ⟨e, [s], ds, he, by simpa using hs, hd, rfl⟩, rfl⟩
        · simp only [if_neg hs, Option.bind_eq_some_iff, Prod.exists, Option.some.injEq,
            Prod.mk.injEq] at h
          obtain ⟨ds, r, hds, rfl, rfl⟩ := h
          obtain ⟨hd, hmore⟩ := digits1?_eq_some hds
          exact ⟨Or.inr ⟨e, [], ds, he, Or.inl rfl, hd, rfl⟩, by rw [hmore]; rfl⟩
    · simp only [exponent?, if_neg he, Option.some.injEq, Prod.mk.injEq] at h
      obtain ⟨rfl, rfl⟩ := h
      exact ⟨Or.inl rfl, rfl⟩

theorem readNumber_eq_some {x : Json} {cs r : List Char} (h : readNumber cs = some (x, r)) :
    ∃ a, Writes (.value x) a ∧ cs = a ++ r := by
  obtain ⟨neg, rest, rfl, hsign⟩ :
      ∃ neg rest, cs = minus neg ++ rest ∧ (neg = false → rest.head? ≠ some '-') := by
    by_cases hm : cs.head? = some '-'
    · obtain ⟨rest, rfl⟩ := List.head?_eq_some_iff.mp hm
      exact ⟨true, rest, rfl, nofun⟩
    · exact ⟨false, cs, rfl, fun _ => hm⟩
  rw [readNumber_minus hsign] at h
  simp only [bind, pure, Option.bind_eq_some_iff, Prod.exists, Option.some.injEq,
    Prod.mk.injEq] at h
  obtain ⟨w, _, hw, f, _, hf, e, _, he, rfl, rfl⟩ := h
  obtain ⟨hwhole, rfl⟩ := whole?_eq_some hw
  obtain ⟨hfraction, rfl⟩ := fraction?_eq_some hf
  obtain ⟨hexponent, rfl⟩ := exponent?_eq_some he
  exact ⟨_, .number neg hwhole hfraction hexponent, by simp only [List.append_assoc]⟩

/-! ### Values -/

theorem skipSpace_eq {cs ds : List Char} (h : skipSpace cs = ds) : ∃ s, Blank s ∧ cs = s ++ ds :=
  ⟨cs.takeWhile isSpace, fun _ hc => List.mem_takeWhile_imp hc,
    by rw [← h, skipSpace, List.takeWhile_append_dropWhile]⟩

theorem Blank.append {s t : List Char} (hs : Blank s) (ht : Blank t) : Blank (s ++ t) :=
  List.forall_mem_append.mpr ⟨hs, ht⟩

theorem word?_eq_some {word cs r : List Char} {x y : Json} (h : word? word x cs = some (y, r)) :
    y = x ∧ cs = word ++ r := by
  rw [word?] at h
  split at h
  · cases h
    obtain ⟨r, rfl⟩ := List.isPrefixOf_iff_prefix.mp ‹_›
    exact ⟨rfl, by rw [List.drop_left]⟩
  · cases h

/-- What was read is a piece of JSON at the head of the text, for a value or a field with blanks
before it. -/
def Phrase.Spent (cs r : List Char) (phrase : Phrase) : Prop :=
  ∃ s a, Blank s ∧ Writes phrase a ∧ cs = s ++ (a ++ r)

theorem Phrase.Spent.of_skipSpace {cs ds r a : List Char} {phrase : Phrase} (hs : skipSpace cs = ds)
    (h : Writes phrase a) (hd : ds = a ++ r) : phrase.Spent cs r := by
  obtain ⟨s, hb, rfl⟩ := skipSpace_eq hs
  exact ⟨s, a, hb, h, by rw [hd]⟩

/-- What the reader does with this much fuel. -/
structure Sound (fuel : Nat) : Prop where
  value {cs r : List Char} {x : Json} (h : readValue fuel cs = some (x, r)) :
    (Phrase.value x).Spent cs r
  items {cs r : List Char} {xs : List Json} (h : readItems fuel cs = some (xs, r)) :
    ∃ a, Writes (.items xs) a ∧ cs = a ++ r
  field {cs r : List Char} {f : Option (List Char) × Json} (h : readField fuel cs = some (f, r)) :
    (Phrase.field f).Spent cs r
  fields {cs r : List Char} {fs : Option (List (String × Json))}
    (h : readFields fuel cs = some (fs, r)) : ∃ a, Writes (.fields fs) a ∧ cs = a ++ r

theorem sound_zero : Sound 0 where
  value h := by simp [readValue] at h
  items h := by simp [readItems] at h
  field h := by simp [readField] at h
  fields h := by simp [readFields] at h

theorem Sound.value_succ {fuel : Nat} (ih : Sound fuel) {cs r : List Char} {x : Json}
    (h : readValue (fuel + 1) cs = some (x, r)) : (Phrase.value x).Spent cs r := by
  rw [readValue] at h
  split at h
  case h_1 => cases h
  case h_2 rest hs =>
    simp only [bind, pure, Option.bind_eq_some_iff, Prod.exists, Option.some.injEq,
      Prod.mk.injEq] at h
    obtain ⟨t, _, ht, rfl, rfl⟩ := h
    obtain ⟨s, hq, rfl⟩ := readString_eq_some ht
    have hx := Writes.string hq
    exact .of_skipSpace hs (a := '"' :: (s ++ ['"'])) (by cases t <;> exact hx) (by simp)
  case h_3 rest hs =>
    split at h
    case h_1 rest' hs' =>
      cases h
      obtain ⟨b, hb, rfl⟩ := skipSpace_eq hs'
      exact .of_skipSpace hs (.emptyList hb) (by simp)
    case h_2 =>
      simp only [bind, pure, Option.bind_eq_some_iff, Prod.exists, Option.some.injEq,
        Prod.mk.injEq] at h
      obtain ⟨y, _, hy, ys, _, hys, rfl, rfl⟩ := h
      obtain ⟨s, a, hs', ha, hrest⟩ := ih.value hy
      obtain ⟨b, hb, rfl⟩ := ih.items hys
      obtain ⟨t, ht, rfl⟩ := skipSpace_eq hrest
      exact .of_skipSpace hs (.list (ht.append hs') ha hb) (by simp)
  case h_4 rest hs =>
    split at h
    case h_1 rest' hs' =>
      cases h
      obtain ⟨b, hb, rfl⟩ := skipSpace_eq hs'
      exact .of_skipSpace hs (.emptyObject hb) (by simp)
    case h_2 =>
      simp only [bind, pure, Option.bind_eq_some_iff, Prod.exists, Option.some.injEq,
        Prod.mk.injEq] at h
      obtain ⟨name, y, _, hf, fs, _, hfs, rfl, rfl⟩ := h
      obtain ⟨s, a, hs', ha, hrest⟩ := ih.field hf
      obtain ⟨b, hb, rfl⟩ := ih.fields hfs
      obtain ⟨t, ht, rfl⟩ := skipSpace_eq hrest
      exact .of_skipSpace hs (.object (ht.append hs') ha hb) (by simp)
  case h_5 rest hs =>
    obtain ⟨rfl, rfl⟩ := word?_eq_some h
    exact .of_skipSpace hs .null rfl
  case h_6 rest hs =>
    obtain ⟨rfl, rfl⟩ := word?_eq_some h
    exact .of_skipSpace hs .yes rfl
  case h_7 rest hs =>
    obtain ⟨rfl, rfl⟩ := word?_eq_some h
    exact .of_skipSpace hs .no rfl
  case h_8 =>
    obtain ⟨a, ha, hcs⟩ := readNumber_eq_some h
    exact .of_skipSpace rfl ha hcs

theorem Sound.items_succ {fuel : Nat} (ih : Sound fuel) {cs r : List Char} {xs : List Json}
    (h : readItems (fuel + 1) cs = some (xs, r)) : ∃ a, Writes (.items xs) a ∧ cs = a ++ r := by
  rw [readItems] at h
  split at h
  case h_1 rest hs =>
    cases h
    obtain ⟨s, hb, rfl⟩ := skipSpace_eq hs
    exact ⟨_, .noItem hb, by simp⟩
  case h_2 rest hs =>
    simp only [bind, pure, Option.bind_eq_some_iff, Prod.exists, Option.some.injEq,
      Prod.mk.injEq] at h
    obtain ⟨y, _, hy, ys, _, hys, rfl, rfl⟩ := h
    obtain ⟨s, hb', rfl⟩ := skipSpace_eq hs
    obtain ⟨t, a, ht, ha, rfl⟩ := ih.value hy
    obtain ⟨b, hb, rfl⟩ := ih.items hys
    exact ⟨_, .item hb' ht ha hb, by simp⟩
  case h_3 => cases h

theorem Sound.field_succ {fuel : Nat} (ih : Sound fuel) {cs r : List Char}
    {f : Option (List Char) × Json} (h : readField (fuel + 1) cs = some (f, r)) :
    (Phrase.field f).Spent cs r := by
  rw [readField] at h
  split at h
  case h_1 rest hs =>
    simp only [bind, pure, Option.bind_eq_some_iff, Prod.exists] at h
    obtain ⟨name, _, hname, h⟩ := h
    obtain ⟨n, hn, rfl⟩ := readString_eq_some hname
    split at h
    case h_1 rest' hs' =>
      simp only [Option.bind_eq_some_iff, Prod.exists, Option.some.injEq, Prod.mk.injEq] at h
      obtain ⟨x, _, hx, rfl, rfl⟩ := h
      obtain ⟨s, hb, rfl⟩ := skipSpace_eq hs'
      obtain ⟨t, a, ht, ha, rfl⟩ := ih.value hx
      exact .of_skipSpace hs (.field hn hb ht ha) (by simp)
    case h_2 => cases h
  case h_2 => cases h

theorem Sound.fields_succ {fuel : Nat} (ih : Sound fuel) {cs r : List Char}
    {fs : Option (List (String × Json))} (h : readFields (fuel + 1) cs = some (fs, r)) :
    ∃ a, Writes (.fields fs) a ∧ cs = a ++ r := by
  rw [readFields] at h
  split at h
  case h_1 rest hs =>
    cases h
    obtain ⟨s, hb, rfl⟩ := skipSpace_eq hs
    exact ⟨_, .noField hb, by simp⟩
  case h_2 rest hs =>
    simp only [bind, pure, Option.bind_eq_some_iff, Prod.exists, Option.some.injEq,
      Prod.mk.injEq] at h
    obtain ⟨name, y, _, hy, ys, _, hys, rfl, rfl⟩ := h
    obtain ⟨s, hb', rfl⟩ := skipSpace_eq hs
    obtain ⟨t, a, ht, ha, rfl⟩ := ih.field hy
    obtain ⟨b, hb, rfl⟩ := ih.fields hys
    exact ⟨_, .more hb' ht ha hb, by simp⟩
  case h_3 => cases h

theorem sound (fuel : Nat) : Sound fuel := by
  induction fuel with
  | zero => exact sound_zero
  | succ fuel ih => exact ⟨ih.value_succ, ih.items_succ, ih.field_succ, ih.fields_succ⟩

/-- A text is read as a value just if it writes it. -/
theorem read_iff {s : String} {x : Json} : read s = some x ↔ Denotes s x := by
  refine ⟨fun h => ?_, Denotes.read⟩
  simp only [read, bind, pure, Option.bind_eq_some_iff, Prod.exists] at h
  obtain ⟨y, rest, hy, h⟩ := h
  split at h
  case isTrue hend =>
    cases h
    obtain ⟨u, cs, hu, hx, hs⟩ := (sound _).value hy
    obtain ⟨v, hv, rfl⟩ := skipSpace_eq (List.isEmpty_iff.mp hend)
    exact ⟨u, cs, v, hu, hx, hv, by rw [hs, List.append_nil]⟩
  case isFalse => cases h

/-- No text writes two values. -/
theorem Denotes.unique {s : String} {x y : Json} (hx : Denotes s x) (hy : Denotes s y) : x = y :=
  Option.some.inj (hx.read.symm.trans hy.read)

end PrecompiledHeaders.Json
