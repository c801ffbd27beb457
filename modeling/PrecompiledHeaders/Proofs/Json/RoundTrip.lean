import PrecompiledHeaders.Json.Writer
import PrecompiledHeaders.Proofs.Json.Grammar
/-! Both written forms of a value are JSON that writes this value, so that it can be read back from
either. Values that hold a number which is no integer, or a broken text, are left out: nothing keeps
their spelling apart. -/
namespace PrecompiledHeaders.Json

open Text (hexDigit)

/-! ### Texts -/

theorem hexValue?_hexDigit {n : Nat} (h : n < 16) : hexValue? (hexDigit n) = some n := by
  revert n
  decide

theorem unitDigits_control {n : Nat} (h : n < 0x20) :
    UnitDigits n ['0', '0', hexDigit (n / 16), hexDigit (n % 16)] :=
  ⟨_, _, _, _, 0, 0, n / 16, n % 16, rfl, by decide, by decide,
    hexValue?_hexDigit (by omega), hexValue?_hexDigit (by omega), by omega⟩

/-- A character stands for itself, or behind a backslash the reader finds it again. -/
theorem escape_escapeChar (c : Char) :
    (escapeChar c = [c] ∧ c ≠ '"' ∧ c ≠ '\\' ∧ ¬ c.toNat < 0x20) ∨
      ∃ e, escapeChar c = '\\' :: e ∧ ∀ s, Escape (some c) e s := by
  by_cases h₁ : c = '"'
  · subst c; exact Or.inr ⟨['"'], rfl, fun _ => .short (by decide)⟩
  by_cases h₂ : c = '\\'
  · subst c; exact Or.inr ⟨['\\'], rfl, fun _ => .short (by decide)⟩
  by_cases h₃ : c = '\x08'
  · subst c; exact Or.inr ⟨['b'], rfl, fun _ => .short (by decide)⟩
  by_cases h₄ : c = '\t'
  · subst c; exact Or.inr ⟨['t'], rfl, fun _ => .short (by decide)⟩
  by_cases h₅ : c = '\n'
  · subst c; exact Or.inr ⟨['n'], rfl, fun _ => .short (by decide)⟩
  by_cases h₆ : c = '\x0c'
  · subst c; exact Or.inr ⟨['f'], rfl, fun _ => .short (by decide)⟩
  by_cases h₇ : c = '\r'
  · subst c; exact Or.inr ⟨['r'], rfl, fun _ => .short (by decide)⟩
  by_cases h₈ : c.toNat < 0x20
  · refine Or.inr ⟨['u', '0', '0', hexDigit (c.toNat / 16), hexDigit (c.toNat % 16)],
      by simp [escapeChar, h₁, h₂, h₃, h₄, h₅, h₆, h₇, h₈], fun s => ?_⟩
    have ht : isTrail c.toNat = false := by simp [isTrail]; omega
    have hl : isLead c.toNat = false := by simp [isLead]; omega
    simpa [Char.ofNat_toNat] using Escape.unit (s := s) (unitDigits_control h₈) hl ht
  · exact Or.inl ⟨by simp [escapeChar, h₁, h₂, h₃, h₄, h₅, h₆, h₇, h₈], h₁, h₂, h₈⟩

theorem quoted_escapeChar (cs : List Char) : Quoted (some cs) (cs.flatMap escapeChar) := by
  induction cs with
  | nil => exact .nil
  | cons c cs ih =>
    rw [List.flatMap_cons]
    rcases escape_escapeChar c with ⟨he, hq, hb, hs⟩ | ⟨e, he, hc⟩
    · rw [he]
      exact .plain hq hb hs ih
    · rw [he]
      exact .escape (hc _) ih

theorem writes_text (s : String) : Writes (.value (.text s)) (writeText s) := by
  have hs := Writes.string (quoted_escapeChar s.toList)
  rwa [ofQuoted, String.ofList_toList] at hs

/-! ### Numbers -/

theorem isDigit_of_mem_toDigits {n : Nat} {c : Char} (h : c ∈ Nat.toDigits 10 n) :
    isDigit c = true := by
  have := Nat.isDigit_of_mem_toDigits (by decide) (by decide) h
  simpa [isDigit, Char.isDigit, Char.le_def] using this

theorem digitsValue_toDigits (n : Nat) : digitsValue (Nat.toDigits 10 n) = n := by
  have h := Nat.ofDigitChars_ten_toDigits (n := n)
  rw [Nat.ofDigitChars_eq_foldl] at h
  simpa [digitsValue, Nat.mul_comm] using h

theorem digitChar_ne_zero {n : Nat} (hn : n < 10) (h : n ≠ 0) : n.digitChar ≠ '0' := by
  revert n
  decide

/-- Only zero is written with a leading zero. -/
theorem toDigits_head {n : Nat} (h : n ≠ 0) : (Nat.toDigits 10 n).head? ≠ some '0' := by
  induction n using Nat.strongRecOn with
  | ind n ih =>
    by_cases hn : n < 10
    · rw [Nat.toDigits_of_lt_base hn]
      exact fun hd => digitChar_ne_zero hn h (Option.some.inj hd)
    · rw [Nat.toDigits_of_base_le (by decide) (by omega),
        List.head?_append_of_ne_nil _ Nat.toDigits_ne_nil]
      exact ih (n / 10) (by omega) (by omega)

theorem whole_toDigits (n : Nat) : Whole (Nat.toDigits 10 n) := by
  by_cases hn : n = 0
  · subst n
    exact Or.inl (Nat.toDigits_zero 10)
  · exact Or.inr ⟨⟨Nat.toDigits_ne_nil, fun _ => isDigit_of_mem_toDigits⟩, toDigits_head hn⟩

theorem number_ofNat (n : Nat) : number false (Nat.toDigits 10 n) [] [] = .int n := by
  rw [number, digitsValue_toDigits, if_pos ⟨rfl, rfl, fun h => Bool.false_ne_true h.1⟩]
  rfl

theorem number_negSucc (n : Nat) :
    number true (Nat.toDigits 10 (n + 1)) [] [] = .int (.negSucc n) := by
  rw [number, digitsValue_toDigits, if_pos ⟨rfl, rfl, fun h => Nat.succ_ne_zero n h.2⟩]
  rfl

theorem writes_int (n : Int) : Writes (.value (.int n)) (writeInt n) := by
  have hparts : ∀ neg n, Writes (.value (number neg (Nat.toDigits 10 n) [] []))
      (minus neg ++ Nat.toDigits 10 n) := by
    intro neg n
    have h := Writes.number neg (whole_toDigits n) (Or.inl rfl) (Or.inl rfl)
    rwa [List.append_nil, List.append_nil] at h
  cases n with
  | ofNat n =>
    have h := hparts false n
    rw [number_ofNat] at h
    exact h
  | negSucc n =>
    have h := hparts true (n + 1)
    rw [number_negSucc] at h
    exact h

/-! ### Values -/

mutual

/-- Nothing in the value is a number that is no integer, or a broken text. -/
def Plain : Json → Prop
  | .null | .bool _ | .int _ | .text _ => True
  | .decimal _ | .broken => False
  | .list xs => PlainItems xs
  | .object fields => PlainFields fields

def PlainItems : List Json → Prop
  | [] => True
  | x :: xs => x.Plain ∧ PlainItems xs

def PlainFields : List (String × Json) → Prop
  | [] => True
  | (_, x) :: fields => x.Plain ∧ PlainFields fields

end

@[simp] theorem plain_null : Json.null.Plain := trivial
@[simp] theorem plain_int (n : Int) : (Json.int n).Plain := trivial
@[simp] theorem plain_bool (b : Bool) : (Json.bool b).Plain := trivial
@[simp] theorem plain_text (s : String) : (Json.text s).Plain := trivial

@[simp] theorem plain_list (xs : List Json) : (Json.list xs).Plain ↔ ∀ x ∈ xs, x.Plain := by
  have : PlainItems xs ↔ ∀ x ∈ xs, x.Plain := by
    induction xs with
    | nil => simp [PlainItems]
    | cons x xs ih => simp [PlainItems, ih]
  simpa [Plain] using this

@[simp] theorem plain_object (fields : List (String × Json)) :
    (Json.object fields).Plain ↔ ∀ f ∈ fields, f.2.Plain := by
  have : PlainFields fields ↔ ∀ f ∈ fields, f.2.Plain := by
    induction fields with
    | nil => simp [PlainFields]
    | cons f fields ih => obtain ⟨name, x⟩ := f; simp [PlainFields, ih]
  simpa [Plain] using this

theorem consField_text (name : String) (x : Json) (fields : List (String × Json)) :
    consField (some name.toList, x) (some fields) = some ((name, x) :: fields) := by
  simp [consField]

/-- A field whose name is written out, with blanks behind the colon. -/
theorem writes_field (name : String) {x : Json} {s cs : List Char} (hs : Blank s)
    (hx : Writes (.value x) cs) :
    Writes (.field (some name.toList, x)) (writeText name ++ ':' :: (s ++ cs)) := by
  have h := Writes.field (quoted_escapeChar name.toList) blank_nil hs hx
  simpa [writeText] using h

section

variable {name : String} {x : Json} {fields : List (String × Json)} {s t a b : List Char}

theorem writes_object (hs : Blank s) (ha : Writes (.field (some name.toList, x)) a)
    (hb : Writes (.fields (some fields)) b) :
    Writes (.value (.object ((name, x) :: fields))) ('\x7b' :: (s ++ (a ++ b))) := by
  have h := Writes.object hs ha hb
  rwa [consField_text] at h

theorem writes_more (hs : Blank s) (ht : Blank t) (ha : Writes (.field (some name.toList, x)) a)
    (hb : Writes (.fields (some fields)) b) :
    Writes (.fields (some ((name, x) :: fields))) (s ++ ',' :: (t ++ (a ++ b))) := by
  have h := Writes.more hs ht ha hb
  rwa [consField_text] at h

end

mutual

theorem writes_write {x : Json} (hx : x.Plain) : Writes (.value x) (write x) := by
  match x with
  | .null => exact .null
  | .bool true => exact .yes
  | .bool false => exact .no
  | .int n => exact writes_int n
  | .text s => exact writes_text s
  | .list [] => exact .emptyList blank_nil
  | .list (y :: ys) => exact .list blank_nil (writes_write hx.1) (writes_writeItems hx.2)
  | .object [] => exact .emptyObject blank_nil
  | .object ((name, y) :: fields) =>
    have h := writes_object blank_nil (writes_field name blank_nil (writes_write hx.1))
      (writes_writeFields hx.2)
    simpa [write] using h

theorem writes_writeItems {xs : List Json} (hx : PlainItems xs) :
    Writes (.items xs) (writeItems xs) := by
  match xs with
  | [] => exact .noItem blank_nil
  | x :: xs => exact .item blank_nil blank_nil (writes_write hx.1) (writes_writeItems hx.2)

theorem writes_writeFields {fields : List (String × Json)} (hx : PlainFields fields) :
    Writes (.fields (some fields)) (writeFields fields) := by
  match fields with
  | [] => exact .noField blank_nil
  | (name, x) :: fields =>
    have h := writes_more blank_nil blank_nil (writes_field name blank_nil (writes_write hx.1))
      (writes_writeFields hx.2)
    simpa [writeFields] using h

end

theorem blank_newline (depth : Nat) : Blank (newline depth) := by
  intro c hc
  rcases List.mem_cons.mp hc with rfl | hc
  · rfl
  · rw [List.eq_of_mem_replicate hc]
    rfl

theorem blank_space : Blank [' '] := by
  intro c hc
  rw [List.mem_singleton.mp hc]
  rfl

mutual

theorem writes_indent (depth : Nat) {x : Json} (hx : x.Plain) :
    Writes (.value x) (indent depth x) := by
  match x with
  | .null | .bool _ | .int _ | .text _ => exact writes_write hx
  | .list [] => exact .emptyList blank_nil
  | .list (y :: ys) =>
    have h := Writes.list (blank_newline (depth + 1)) (writes_indent (depth + 1) hx.1)
      (writes_indentItems depth hx.2)
    simpa [indent] using h
  | .object [] => exact .emptyObject blank_nil
  | .object ((name, y) :: fields) =>
    have h := writes_object (blank_newline (depth + 1))
      (writes_field name blank_space (writes_indent (depth + 1) hx.1))
      (writes_indentFields depth hx.2)
    simpa [indent] using h

theorem writes_indentItems (depth : Nat) {xs : List Json} (hx : PlainItems xs) :
    Writes (.items xs) (indentItems depth xs) := by
  match xs with
  | [] => exact .noItem (blank_newline depth)
  | x :: xs =>
    have h := Writes.item blank_nil (blank_newline (depth + 1)) (writes_indent (depth + 1) hx.1)
      (writes_indentItems depth hx.2)
    simpa [indentItems] using h

theorem writes_indentFields (depth : Nat) {fields : List (String × Json)} (hx : PlainFields fields) :
    Writes (.fields (some fields)) (indentFields depth fields) := by
  match fields with
  | [] => exact .noField (blank_newline depth)
  | (name, x) :: fields =>
    have h := writes_more blank_nil (blank_newline (depth + 1))
      (writes_field name blank_space (writes_indent (depth + 1) hx.1))
      (writes_indentFields depth hx.2)
    simpa [indentFields] using h

end

theorem denotes_compact {x : Json} (hx : x.Plain) : Denotes x.compact x :=
  ⟨[], _, [], blank_nil, writes_write hx, blank_nil, by rw [compact, String.toList_ofList]; simp⟩

theorem denotes_pretty {x : Json} (hx : x.Plain) : Denotes x.pretty x :=
  ⟨[], _, [], blank_nil, writes_indent 0 hx, blank_nil, by rw [pretty, String.toList_ofList]; simp⟩

/-- Reading undoes writing. -/
theorem read_compact {x : Json} (hx : x.Plain) : read x.compact = some x := (denotes_compact hx).read

/-- The indented form is read as the same value. -/
theorem read_pretty {x : Json} (hx : x.Plain) : read x.pretty = some x := (denotes_pretty hx).read

/-- No two values are written alike. -/
theorem compact_injective {x y : Json} (hx : x.Plain) (hy : y.Plain)
    (h : x.compact = y.compact) : x = y :=
  Option.some.inj ((read_compact hx).symm.trans (h ▸ read_compact hy))

end PrecompiledHeaders.Json
