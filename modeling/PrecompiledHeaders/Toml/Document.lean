import PrecompiledHeaders.Toml.Text
/-! Whole documents. Tables grow line by line; how a table came about decides what may still be
added to it, and nothing is ever said twice. -/
namespace PrecompiledHeaders.Toml

inductive Origin where
  /-- Only mentioned on the way to another table. -/
  | implicit
  | header
  /-- Made by dotted keys. -/
  | dotted
  deriving DecidableEq, Repr

/-- A value under construction. Rows are the tables of an array of tables, last first. -/
inductive Node where
  | closed (value : Toml)
  | table (origin : Origin) (fields : List (String × Node))
  | rows (rows : List (List (String × Node)))

abbrev NodeFields := List (String × Node)

mutual

def Node.toToml : Node → Toml
  | .closed v => v
  | .table _ fields => .table (fieldsToToml fields)
  | .rows rows => .list (rowsToToml rows).reverse

def fieldsToToml : List (String × Node) → List (String × Toml)
  | [] => []
  | (k, n) :: rest => (k, n.toToml) :: fieldsToToml rest

def rowsToToml : List (List (String × Node)) → List Toml
  | [] => []
  | r :: rest => .table (fieldsToToml r) :: rowsToToml rest

end

def replaceField (k : String) (n : Node) : NodeFields → NodeFields
  | [] => []
  | f :: rest => if f.1 = k then (k, n) :: rest else f :: replaceField k n rest

/-- `change` applied to the table at the end of a path. Missing tables on the way are made; dotted
keys do not enter a table that has a header; an array of tables is entered at its last row. -/
def alter (dotted : Bool) (change : Origin → NodeFields → Option NodeFields) :
    List String → Origin → NodeFields → Option NodeFields
  | [], origin, fields => change origin fields
  | k :: ks, _, fields =>
    match fields.lookup k with
    | none =>
      let origin := if dotted then Origin.dotted else .implicit
      (alter dotted change ks origin []).map fun sub => fields ++ [(k, .table origin sub)]
    | some (.table origin sub) =>
      if dotted && origin = .header then none
      else (alter dotted change ks origin sub).map fun sub =>
        replaceField k (.table origin sub) fields
    | some (.rows (last :: before)) =>
      (alter dotted change ks .header last).map fun last =>
        replaceField k (.rows (last :: before)) fields
    | some _ => none

/-- A key and its value enter a table. Tables made by dotted keys take only dotted keys. -/
def insertValue (direct : Bool) (k : String) (v : Toml) (origin : Origin) (fields : NodeFields) :
    Option NodeFields :=
  if (origin = .dotted) = direct then none
  else if (fields.lookup k).isSome then none
  else some (fields ++ [(k, .closed v)])

/-- The assignment of `v` to a dotted key, inside a table with a header. -/
def assign? (key : List String) (v : Toml) (fields : NodeFields) : Option NodeFields :=
  match key.getLast? with
  | none => none
  | some k => alter true (insertValue key.dropLast.isEmpty k v) key.dropLast .header fields

/-- A table may get its header late, but only once. -/
def openTable (k : String) (_ : Origin) (fields : NodeFields) : Option NodeFields :=
  match fields.lookup k with
  | none => some (fields ++ [(k, .table .header [])])
  | some (.table .implicit sub) => some (replaceField k (.table .header sub) fields)
  | some _ => none

def openRow (k : String) (_ : Origin) (fields : NodeFields) : Option NodeFields :=
  match fields.lookup k with
  | none => some (fields ++ [(k, .rows [[]])])
  | some (.rows rows) => some (replaceField k (.rows ([] :: rows)) fields)
  | some _ => none

/-! ### Values -/

def comment? (cs : List Char) : Option (List Char) :=
  match cs with
  | '#' :: rest =>
    let after := rest.dropWhile (! isControl ·)
    match after with
    | [] | '\n' :: _ | '\r' :: '\n' :: _ => some after
    | _ => none
  | _ => some cs

/-- Blanks, line ends and comments. -/
def skipLines : Nat → List Char → Option (List Char)
  | 0, _ => none
  | fuel + 1, cs =>
    match skipBlanks cs with
    | '\n' :: rest => skipLines fuel rest
    | '\r' :: '\n' :: rest => skipLines fuel rest
    | '#' :: rest => do skipLines fuel (← comment? ('#' :: rest))
    | cs => some cs

def skipAll? (cs : List Char) : Option (List Char) := skipLines (cs.length + 1) cs

/-- How deep arrays and inline tables may be nested. -/
def maxDepth : Nat := 80

mutual

/-- One value; `depth` more brackets may open. -/
def value? : Nat → Nat → List Char → Option (Toml × List Char)
  | 0, _, _ => none
  | fuel + 1, depth, cs =>
    match cs with
    | '"' :: _ | '\'' :: _ => (string? cs).map fun r => (.text r.1, r.2)
    | '[' :: rest =>
      if depth = 0 then none
      else (elements? fuel (depth - 1) rest).map fun r => (.list r.1, r.2)
    | '\x7b' :: rest =>
      if depth = 0 then none
      else (inlineFields? fuel (depth - 1) [] rest).map fun r => (.table (fieldsToToml r.1), r.2)
    | _ => scalar? cs

/-- The rest of an array. -/
def elements? : Nat → Nat → List Char → Option (List Toml × List Char)
  | 0, _, _ => none
  | fuel + 1, depth, cs => do
    match ← skipAll? cs with
    | ']' :: rest => return ([], rest)
    | cs =>
      let (v, rest) ← value? fuel depth cs
      match ← skipAll? rest with
      | ',' :: rest =>
        let (vs, rest) ← elements? fuel depth rest
        return (v :: vs, rest)
      | ']' :: rest => return ([v], rest)
      | _ => none

/-- The rest of an inline table that has `fields` so far. -/
def inlineFields? : Nat → Nat → NodeFields → List Char → Option (NodeFields × List Char)
  | 0, _, _, _ => none
  | fuel + 1, depth, fields, cs => do
    match ← skipAll? cs with
    | '\x7d' :: rest => return (fields, rest)
    | cs =>
      let (key, rest) ← dottedKey? (cs.length + 1) cs
      let rest ← expect? '=' rest
      let (v, rest) ← value? fuel depth (skipBlanks rest)
      let fields ← assign? key v fields
      match ← skipAll? rest with
      | ',' :: rest => inlineFields? fuel depth fields rest
      | '\x7d' :: rest => return (fields, rest)
      | _ => none

end

/-! ### Lines -/

/-- The tables so far and the path of the table that assignments go to. -/
structure Draft where
  root : NodeFields
  header : List String

def Draft.assign (d : Draft) (key : List String) (v : Toml) : Option Draft :=
  (alter false (fun _ fields => assign? key v fields) d.header .header d.root).map
    fun root => { d with root := root }

def Draft.enter (d : Draft) (start : String → Origin → NodeFields → Option NodeFields)
    (key : List String) : Option Draft :=
  match key.getLast? with
  | none => none
  | some k => (alter false (start k) key.dropLast .header d.root).map fun root => ⟨root, key⟩

/-- The end of a line: blanks, a comment, and a line end or the end of all. -/
def lineEnd? (cs : List Char) : Option (List Char) := do
  match ← comment? (skipBlanks cs) with
  | [] => return []
  | '\n' :: rest => return rest
  | '\r' :: '\n' :: rest => return rest
  | _ => none

/-- What stands on one line, up to the line's end. -/
def statement? (d : Draft) (cs : List Char) : Option (Draft × List Char) :=
  let fuel := cs.length + 1
  match cs with
  | [] | '#' :: _ | '\n' :: _ | '\r' :: _ => some (d, cs)
  | '[' :: '[' :: rest => do
    let (key, rest) ← dottedKey? fuel rest
    return (← d.enter openRow key, ← expect? ']' (← expect? ']' rest))
  | '[' :: rest => do
    let (key, rest) ← dottedKey? fuel rest
    return (← d.enter openTable key, ← expect? ']' rest)
  | _ => do
    let (key, rest) ← dottedKey? fuel cs
    let (v, rest) ← value? (2 * fuel) maxDepth (skipBlanks (← expect? '=' rest))
    return (← d.assign key v, rest)

def statements? : Nat → Draft → List Char → Option Draft
  | 0, _, _ => none
  | fuel + 1, d, cs =>
    match cs with
    | [] => some d
    | cs => do
      let (d, rest) ← statement? d (skipBlanks cs)
      statements? fuel d (← lineEnd? rest)

/-- The table that a whole document describes. A byte-order mark may stand first. -/
def read (s : String) : Option Toml := do
  let cs := match s.toList with
    | '\uFEFF' :: rest => rest
    | cs => cs
  let d ← statements? (cs.length + 2) ⟨[], []⟩ cs
  return .table (fieldsToToml d.root)

end PrecompiledHeaders.Toml
