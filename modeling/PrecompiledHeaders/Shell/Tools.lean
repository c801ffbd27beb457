import PrecompiledHeaders.Shell.Pattern
import PrecompiledHeaders.Shell.State
import PrecompiledHeaders.Text.Quoted
/-! The tools that scripts use on files and text, as far as small build scripts go. Each acts on
the state and leaves its status. -/
namespace PrecompiledHeaders.Shell

abbrev Tool := Channels → List String → State → State

def joinBlank (xs : List String) : String := " ".intercalate xs

/-! ### Escapes -/

def octalValue (ds : List Char) : UInt8 :=
  (ds.foldl (fun (n : Nat) (d : Char) => n * 8 + (d.toNat - 48)) 0).toUInt8

def isOctal (c : Char) : Bool := '0' ≤ c && c ≤ '7'

def namedEscape? : Char → Option UInt8
  | 'a' => some 7
  | 'b' => some 8
  | 't' => some 9
  | 'n' => some 10
  | 'v' => some 11
  | 'f' => some 12
  | 'r' => some 13
  | '\\' => some 92
  | _ => none

/-- Backslashes read as escapes. Numbers have to start with zero if `zeroed`. -/
def unescape (zeroed : Bool) : Nat → List Char → List UInt8
  | 0, _ => []
  | _ + 1, [] => []
  | fuel + 1, '\\' :: c :: rest =>
    match namedEscape? c with
    | some b => b :: unescape zeroed fuel rest
    | none =>
      if isOctal c && (!zeroed || c = '0') then
        let digits := if zeroed then (rest.take 3).takeWhile isOctal
          else ((c :: rest).take 3).takeWhile isOctal
        octalValue digits :: unescape zeroed fuel (if zeroed then rest.drop digits.length
          else (c :: rest).drop digits.length)
      else 92 :: unescape zeroed fuel (c :: rest)
  | fuel + 1, c :: rest => Text.Utf8.encode (String.ofList [c]) ++ unescape zeroed fuel rest

def unescaped (zeroed : Bool) (s : String) : List UInt8 :=
  unescape zeroed (s.length + 1) s.toList

/-- A format with one pass over the arguments; what is left of them comes back. -/
def formatOnce : Nat → List Char → List String → List UInt8 × List String
  | 0, _, as => ([], as)
  | _ + 1, [], as => ([], as)
  | fuel + 1, '%' :: d :: rest, as =>
    let (here, as) :=
      if d = '%' then ([37], as)
      else
        let value := as.headD ""
        (if d = 'b' then unescaped true value
          else if d = 'd' || d = 'i' || d = 'u' then
            Text.Utf8.encode (if value.isEmpty then "0" else value)
          else if d = 'c' then Text.Utf8.encode (String.ofList (value.toList.take 1))
          else Text.Utf8.encode value, as.drop 1)
    let (more, as) := formatOnce fuel rest as
    (here ++ more, as)
  | fuel + 1, '\\' :: rest, as =>
    let width := match rest with
      | c :: more => if isOctal c then ((c :: more).take 3).takeWhile isOctal |>.length else 1
      | [] => 0
    let (more, as) := formatOnce fuel (rest.drop width) as
    (unescape false (width + 2) ('\\' :: rest.take width) ++ more, as)
  | fuel + 1, c :: rest, as =>
    let (more, as) := formatOnce fuel rest as
    (Text.Utf8.encode (String.ofList [c]) ++ more, as)

/-- The format is used again as long as it takes up arguments. -/
def formatted (format : String) : Nat → List String → List UInt8
  | 0, _ => []
  | fuel + 1, as =>
    let (bytes, left) := formatOnce (format.length + 1) format.toList as
    if left.isEmpty || left.length = as.length then bytes
    else bytes ++ formatted format fuel left

def printf : Tool := fun ch args s =>
  match args with
  | format :: as => (s.put ch.output (formatted format (as.length + 1) as)).withStatus 0
  | [] => (s.complain ch "printf: missing operand").withStatus 2

def echo : Tool := fun ch args s =>
  let (words, ending) : List String × List UInt8 := match args with
    | "-n" :: rest => (rest, [])
    | _ => (args, [10])
  (s.put ch.output (unescaped true (joinBlank words) ++ ending)).withStatus 0

/-- The tool of that name outside of the shell takes backslashes as they are. -/
def plainEcho : Tool := fun ch args s =>
  match args with
  | "-n" :: rest => (s.say ch (joinBlank rest)).withStatus 0
  | "-e" :: rest => (s.put ch.output (unescaped true (joinBlank rest) ++ [10])).withStatus 0
  | _ => (s.say ch (joinBlank args ++ "\n")).withStatus 0

/-! ### Files -/

/-- A device that is empty when it is read. -/
def nullDevice : Place := ["dev", "null"]

def readFile (s : State) (path : String) : Except OsFault (List UInt8) := do
  let place ← s.locate path
  if place = nullDevice then return [] else s.tree.read place

def complaint (tool path : String) (f : OsFault) : String := s!"{tool}: {path}: {f.text}"

/-- A change of the tree, or a complaint. -/
def change (tool path : String) (ch : Channels) (r : Except OsFault FileTree) (s : State) : State :=
  match r with
  | .ok tree => { s with tree := tree }
  | .error f => s.complain ch (complaint tool path f)

def splitFlags (args : List String) : List String × List String :=
  let isFlag := fun (a : String) => a.startsWith "-" && a ≠ "-"
  (args.takeWhile isFlag, (args.dropWhile isFlag).dropWhile (· = "--"))

def hasFlag (flags : List String) (c : Char) : Bool := flags.any (·.toList.contains c)

/-- The bytes of the named files one after the other, or all input where none is named. -/
def gather (tool : String) (ch : Channels) (paths : List String) (s : State) :
    List UInt8 × State :=
  match paths with
  | [] => s.allInput ch
  | _ => paths.foldl (fun (bytes, s) p =>
      if p = "-" then
        let (more, s) := s.allInput ch
        (bytes ++ more, s)
      else match readFile s p with
        | .ok more => (bytes ++ more, s)
        | .error f => (bytes, s.complain ch (complaint tool p f))) ([], s)

/-- The first letter after a dash that is no option of the tool. -/
def strangeOption? (known : String) (flags : List String) : Option Char :=
  ((flags.filter (!·.startsWith "--")).flatMap (·.toList.drop 1)).find?
    (!known.toList.contains ·)

def refuseOption (tool : String) (option : Char) (ch : Channels) (s : State) : State :=
  s.complain ch (s!"{tool}: invalid option -- '" ++ String.ofList [option]
    ++ s!"'\nTry '{tool} --help' for more information.")

def cat : Tool := fun ch args s =>
  let (flags, paths) := splitFlags args
  match strangeOption? "AbeEnstTuv" flags with
  | some c => refuseOption "cat" c ch s
  | none =>
    let (bytes, s) := gather "cat" ch paths (s.withStatus 0)
    s.put ch.output bytes

def rm : Tool := fun ch args s =>
  let (flags, paths) := splitFlags args
  let isForced := hasFlag flags 'f'
  paths.foldl (fun s p =>
    match s.locate p, s.entry? p with
    | .ok place, some e =>
      match e.kind with
      | .directory _ =>
        if hasFlag flags 'r' then { s with tree := s.tree.removeAll place }
        else s.complain ch (complaint "rm" p .isDirectory)
      | .file _ _ => change "rm" p ch (s.tree.removeFile place) s
    | _, _ => if isForced then s else s.complain ch (complaint "rm" p .notFound)) (s.withStatus 0)

/-- A target that is a directory takes files in under their names. -/
def targetPlace (s : State) (source target : String) : Except OsFault Place := do
  let place ← s.locate target
  match s.tree.directory? place with
  | some _ => return place ++ [(← s.locate source).getLast?.getD ""]
  | none => return place

def transfer (tool : String) (act : State → String → Place → Except OsFault FileTree) : Tool :=
  fun ch args s =>
    let (_, paths) := splitFlags args
    let s := s.withStatus 0
    match paths.getLast? with
    | none => s.complain ch s!"{tool}: missing file operand"
    | some target =>
      paths.dropLast.foldl (fun s source =>
        match targetPlace s source target with
        | .ok place => change tool source ch (act s source place) s
        | .error f => s.complain ch (complaint tool target f)) s

def cp : Tool := transfer "cp" fun s source place => do
  s.tree.write place (← readFile s source)

def mv : Tool := transfer "mv" fun s source place => do
  s.tree.rename (← s.locate source) place

def mkdir : Tool := fun ch args s =>
  let (flags, paths) := splitFlags args
  paths.foldl (fun s p =>
    change "mkdir" p ch (do
      if hasFlag flags 'p' then s.tree.makeDirectories s.cwd ⟨p⟩
      else s.tree.makeDirectory (← s.locate p)) s) (s.withStatus 0)

/-- Seconds after an `@`, with a fraction if there is one, in nanoseconds. -/
def stamp? (text : String) : Option Stamp :=
  match text.toList with
  | '@' :: rest =>
    let (negative, digits) := match rest with
      | '-' :: ds => (true, ds)
      | ds => (false, ds)
    let whole := digits.takeWhile Char.isDigit
    let fraction := ((digits.dropWhile Char.isDigit).drop 1).take 9
    let nanos := (fraction ++ List.replicate (9 - fraction.length) '0')
    let value := fun (ds : List Char) => ds.foldl (fun n d => n * 10 + (d.toNat - 48)) 0
    if whole.isEmpty || !fraction.all Char.isDigit then none
    else
      let n : Int := (value whole * 1000000000 + value nanos : Nat)
      some (if negative then -n else n)
  | _ => none

/-- The date of a touch, whether it may make files, and the files. -/
def touchOptions : List String → Option String × Bool × List String
  | "-d" :: date :: rest =>
    let (_, create, paths) := touchOptions rest
    (some date, create, paths)
  | "-c" :: rest =>
    let (date, _, paths) := touchOptions rest
    (date, false, paths)
  | "-m" :: rest => touchOptions rest
  | paths => (none, true, paths)

def touchOne (date : Option Stamp) (create : Bool) (ch : Channels) (s : State) (p : String) :
    State :=
  match s.locate p with
  | .error f => s.complain ch (complaint "touch" p f)
  | .ok place =>
    match s.tree.entry? place with
    | none =>
      if create then
        change "touch" p ch (do
          let tree ← s.tree.write place []
          match date with
          | some stamp => tree.setModified place stamp
          | none => return tree) s
      else s
    | some _ =>
      let tree := s.tree.tick
      change "touch" p ch (tree.setModified place (date.getD tree.clock)) s

def touch : Tool := fun ch args s =>
  let (date, create, paths) := touchOptions args
  match date.map stamp? with
  | some none => s.complain ch ("touch: invalid date format " ++ Text.quoted (date.getD ""))
  | stamp => paths.foldl (touchOne (stamp.bind id) create ch) (s.withStatus 0)

/-! ### Text -/

def lines (bytes : List UInt8) : List (List Char) :=
  let text := (Text.Utf8.lossy bytes).toList
  let pieces := text.splitOn '\n'
  if pieces.getLast? = some [] then pieces.dropLast else pieces

/-- Whether the last line has an end. -/
def endsInBreak (bytes : List UInt8) : Bool := bytes.getLast? = some 10

structure Substitution where
  pattern : Pattern
  replacement : List Char
  everywhere : Bool
  prints : Bool

/-- Up to the next delimiter that no backslash protects. -/
def delimited? (d : Char) : List Char → Option (List Char × List Char)
  | [] => none
  | '\\' :: c :: rest =>
    (delimited? d rest).map fun r => (if c = d then (c :: r.1, r.2) else ('\\' :: c :: r.1, r.2))
  | c :: rest => if c = d then some ([], rest) else (delimited? d rest).map fun r => (c :: r.1, r.2)

def substitution? (script : String) : Option Substitution := do
  match script.toList with
  | 's' :: d :: rest =>
    let (pattern, rest) ← delimited? d rest
    let (replacement, flags) ← delimited? d rest
    let pattern ← expression? pattern
    return ⟨pattern, replacement, flags.contains 'g', flags.contains 'p'⟩
  | _ => none

def replacementText (whole : List Char) (g : Groups) : List Char → List Char
  | [] => []
  | '\\' :: 'n' :: rest => '\n' :: replacementText whole g rest
  | '\\' :: c :: rest =>
    (if c.isDigit then (if c = '0' then whole else g.text (c.toNat - 48)) else [c])
      ++ replacementText whole g rest
  | '&' :: rest => whole ++ replacementText whole g rest
  | c :: rest => c :: replacementText whole g rest

/-- The line with its matches replaced, if there are any. -/
def substitute (x : Substitution) (atStart : Bool) : Nat → List Char → Option (List Char)
  | 0, _ => none
  | fuel + 1, line => do
    let (before, whole, rest, g) ← findMatch x.pattern atStart line
    let here := before ++ replacementText whole g x.replacement
    if !x.everywhere then return here ++ rest
    else match whole, rest with
      | [], [] => return here
      | [], c :: rest => return here ++ c :: (substitute x false fuel rest).getD rest
      | _, rest => return here ++ (substitute x false fuel rest).getD rest

def sedOptions : List String → Bool × Option String × List String
  | "-n" :: rest =>
    let (_, script, paths) := sedOptions rest
    (true, script, paths)
  | "-e" :: script :: rest => (false, some script, rest)
  | script :: rest => (false, some script, rest)
  | [] => (false, none, [])

def sed : Tool := fun ch args s =>
  let (quiet, script, paths) := sedOptions args
  match script.bind substitution? with
  | none => s.complain ch "sed: unknown command"
  | some x =>
    let (bytes, s) := gather "sed" ch paths (s.withStatus 0)
    let all := (lines bytes).map fun line => (line, substitute x true (line.length + 1) line)
    let written := all.flatMap fun (line, new) =>
      (if quiet then [] else [new.getD line]) ++ (if x.prints then new.toList else [])
    let text := String.ofList (['\n'].intercalate written)
    let ending := if !written.isEmpty && endsInBreak bytes then "\n" else ""
    s.say ch (text ++ ending)

/-- A file's lines, or all input's, that hold the pattern. -/
def grep : Tool := fun ch args s =>
  let (flags, operands) := splitFlags args
  match operands with
  | [] => (s.complain ch "grep: missing pattern").withStatus 2
  | pattern :: paths =>
    let items := if hasFlag flags 'F' then some (pattern.toList.map fun c => .one (.char c))
      else expression? pattern.toList
    let (bytes, s) := gather "grep" ch paths (s.withStatus 0)
    let found := (lines bytes).filter fun line =>
      (items.any fun i => (findMatch i true line).isSome) != hasFlag flags 'v'
    let s := if hasFlag flags 'q' then s
      else if hasFlag flags 'c' then s.say ch s!"{found.length}\n"
      else s.say ch (String.join (found.map fun l => String.ofList l ++ "\n"))
    if found.isEmpty then s.withStatus 1 else s

/-- A count given as `-c N`, `-cN`, `-n N`, `-nN` or `-N`; counts of bytes are marked true. -/
def countOption : List String → (Bool × Nat) × List String
  | first :: rest =>
    match first.toList with
    | '-' :: 'c' :: [] => ((true, ((rest.headD "").toNat?).getD 0), rest.drop 1)
    | '-' :: 'n' :: [] => ((false, ((rest.headD "").toNat?).getD 10), rest.drop 1)
    | '-' :: 'c' :: ds => ((true, ((String.ofList ds).toNat?).getD 0), rest)
    | '-' :: 'n' :: ds => ((false, ((String.ofList ds).toNat?).getD 10), rest)
    | '-' :: ds =>
      match (String.ofList ds).toNat? with
      | some n => ((false, n), rest)
      | none => ((false, 10), first :: rest)
    | _ => ((false, 10), first :: rest)
  | [] => ((false, 10), [])

def takeLines : Nat → List UInt8 → List UInt8
  | 0, _ => []
  | _ + 1, [] => []
  | n + 1, bytes =>
    bytes.takeWhile (· ≠ 10) ++ (bytes.dropWhile (· ≠ 10)).take 1
      ++ takeLines n ((bytes.dropWhile (· ≠ 10)).drop 1)

def head : Tool := fun ch args s =>
  let ((isBytes, n), paths) := countOption args
  let s := s.withStatus 0
  if paths.isEmpty then
    let (bytes, s) := s.takeInput ch (if isBytes then n else s.reach ch n)
    s.put ch.output (if isBytes then bytes else takeLines n bytes)
  else if isBytes && paths = ["/dev/zero"] then s.put ch.output (List.replicate n 0)
  else
    let (bytes, s) := gather "head" ch paths s
    s.put ch.output (if isBytes then bytes.take n else takeLines n bytes)

def tail : Tool := fun ch args s =>
  let ((isBytes, n), paths) := countOption args
  let (bytes, s) := gather "tail" ch paths (s.withStatus 0)
  if isBytes then s.put ch.output (bytes.drop (bytes.length - n))
  else
    let all := lines bytes
    let kept := all.drop (all.length - n)
    let text := String.ofList (['\n'].intercalate kept)
    s.say ch (text ++ if !kept.isEmpty && endsInBreak bytes then "\n" else "")

def wc : Tool := fun ch args s =>
  let (flags, paths) := splitFlags args
  let (bytes, s) := gather "wc" ch paths (s.withStatus 0)
  let words := (Text.Utf8.lossy bytes).toList.splitOnP fun c => c = ' ' || c = '\n' || c = '\t'
  let n := if hasFlag flags 'c' then bytes.length
    else if hasFlag flags 'w' then (words.filter (!·.isEmpty)).length
    else bytes.count 10
  s.say ch (joinBlank (toString n :: paths) ++ "\n")

/-- The same line for ever. -/
def yes : Tool := fun ch args s =>
  let line := Text.Utf8.encode ((if args.isEmpty then "y" else joinBlank args) ++ "\n")
  match ch.output with
  | .stream n => (s.setStream n { s.stream n with cycle := line }).withStatus 0
  | _ => s.withStatus 0

def baseName (path : String) : String :=
  ((path.splitOn "/").filter (!·.isEmpty)).getLast?.getD "/"

def basename : Tool := fun ch args s => (s.say ch (baseName (args.headD "") ++ "\n")).withStatus 0

def dirname : Tool := fun ch args s =>
  let parent := match FilePath.parent? ⟨args.headD ""⟩ with
    | some p => if p.isEmpty then "." else p.text
    | none => args.headD "."
  (s.say ch (parent ++ "\n")).withStatus 0

def pwd : Tool := fun ch _ s => (s.say ch ((FileTree.absolute s.cwd).text ++ "\n")).withStatus 0

/-- Input goes to the output and to the files. -/
def tee : Tool := fun ch args s =>
  let (flags, paths) := splitFlags args
  let (bytes, s) := s.allInput ch
  paths.foldl (fun s p => change "tee" p ch (do
      let place ← s.locate p
      if hasFlag flags 'a' then s.tree.append place bytes else s.tree.write place bytes) s)
    ((s.put ch.output bytes).withStatus 0)

/-- The numbers from 1 or from the first bound to the last one. -/
def seq : Tool := fun ch args s =>
  let bounds : Int × Int := match args.map fun a => (a.toInt?).getD 0 with
    | [last] => (1, last)
    | first :: last :: _ => (first, last)
    | [] => (1, 0)
  let count := (bounds.2 - bounds.1 + 1).toNat
  let numbers := (List.range count).map fun i => bounds.1 + Int.ofNat i
  (s.say ch (String.join (numbers.map fun n => toString n ++ "\n"))).withStatus 0

/-- The characters of a set, with ranges written out. -/
def setMembers : Nat → List Char → List Char
  | 0, _ => []
  | _ + 1, [] => []
  | fuel + 1, '\\' :: c :: rest =>
    let (member, rest) := if isOctal c then
        let digits := ((c :: rest).take 3).takeWhile isOctal
        (Char.ofNat (octalValue digits).toNat, (c :: rest).drop digits.length)
      else (Char.ofNat ((namedEscape? c).getD c.toNat.toUInt8).toNat, rest)
    member :: setMembers fuel rest
  | fuel + 1, c :: '-' :: d :: rest =>
    (List.range (d.toNat + 1 - c.toNat)).map (fun i => Char.ofNat (c.toNat + i))
      ++ setMembers fuel rest
  | fuel + 1, c :: rest => c :: setMembers fuel rest

def setOf (text : String) : List Char := setMembers (text.length + 1) text.toList

/-- The member at the same position; the last one goes for all that follow. -/
def counterpart (sources targets : List Char) (c : Char) : Char :=
  match sources.idxOf? c with
  | some i => (targets[i]?.orElse fun _ => targets.getLast?).getD c
  | none => c

def tr : Tool := fun ch args s =>
  let (flags, sets) := splitFlags args
  let (bytes, s) := s.allInput ch
  let text := (Text.Utf8.lossy bytes).toList
  let sources := setOf (sets.headD "")
  let new := if hasFlag flags 'd' then text.filter (!sources.contains ·)
    else text.map (counterpart sources (setOf ((sets.drop 1).headD "")))
  (s.say ch (String.ofList new)).withStatus 0

def sort : Tool := fun ch args s =>
  let (flags, paths) := splitFlags args
  let (bytes, s) := gather "sort" ch paths (s.withStatus 0)
  let all := ((lines bytes).map fun l => String.ofList l).mergeSort
  let kept := if hasFlag flags 'u' then all.eraseDups else all
  s.say ch (String.join ((if hasFlag flags 'r' then kept.reverse else kept).map (· ++ "\n")))

/-! ### Conditions -/

def unaryTest (s : State) (op arg : String) : Bool :=
  match op with
  | "-n" => !arg.isEmpty
  | "-z" => arg.isEmpty
  | "-e" | "-r" | "-w" => (s.entry? arg).isSome
  | "-f" => (s.entry? arg).any (·.isFile)
  | "-d" => (s.entry? arg).any (!·.isFile)
  | "-x" => match s.entry? arg with
    | some ⟨_, .file _ executable, _⟩ => executable
    | some _ => true
    | none => false
  | "-s" => match s.entry? arg with
    | some ⟨_, .file content _, _⟩ => !content.isEmpty
    | some _ => true
    | none => false
  | _ => false

def binaryTest (a op b : String) : Bool :=
  let x := (a.toInt?).getD 0
  let y := (b.toInt?).getD 0
  match op with
  | "=" | "==" => a = b
  | "!=" => a ≠ b
  | "-eq" => x = y
  | "-ne" => x ≠ y
  | "-lt" => x < y
  | "-le" => x ≤ y
  | "-gt" => y < x
  | "-ge" => y ≤ x
  | _ => false

def testHolds (s : State) : List String → Bool
  | [] => false
  | [a] => !a.isEmpty
  | ["!", a] => a.isEmpty
  | [op, a] => unaryTest s op a
  | ["!", op, a] => !unaryTest s op a
  | [a, "-a", b] => !a.isEmpty && !b.isEmpty
  | [a, "-o", b] => !a.isEmpty || !b.isEmpty
  | [a, op, b] => binaryTest a op b
  | ["!", a, op, b] => !binaryTest a op b
  | _ => false

def test : Tool := fun _ args s => s.withStatus (if testHolds s args then 0 else 1)

def bracket : Tool := fun ch args s =>
  if args.getLast? = some "]" then test ch args.dropLast s
  else (s.complain ch "[: missing ]").withStatus 2

/-! ### Signals -/

def signals : List (String × Nat) :=
  [("HUP", 1), ("INT", 2), ("QUIT", 3), ("ILL", 4), ("TRAP", 5), ("ABRT", 6), ("BUS", 7),
   ("FPE", 8), ("KILL", 9), ("USR1", 10), ("SEGV", 11), ("USR2", 12), ("PIPE", 13), ("ALRM", 14),
   ("TERM", 15), ("CHLD", 17), ("CONT", 18), ("STOP", 19), ("URG", 23), ("WINCH", 28)]

/-- Signals that end no process. -/
def isHarmless (n : Nat) : Bool := n = 0 || n = 17 || n = 18 || n = 23 || n = 28

def signalNumber? (name : String) : Option Nat :=
  let name := if name.startsWith "SIG" then String.ofList (name.toList.drop 3) else name
  name.toNat?.orElse fun _ => signals.lookup name

/-- Only the script's own process is there to be killed. -/
def killProcess (ch : Channels) (signal : String) (target : String) (s : State) : State :=
  match signalNumber? signal with
  | none => s.warn ch s!"kill: Illegal number: {signal}"
  | some n =>
    if target ≠ toString s.process then (s.warn ch "kill: No such process").withStatus 1
    else if isHarmless n then s.withStatus 0
    else s.stop (.signal n)

def kill : Tool := fun ch args s =>
  match args with
  | ["-s", signal, target] => killProcess ch signal target s
  | [signal, target] => killProcess ch (String.ofList (signal.toList.drop 1)) target s
  | [target] => killProcess ch "TERM" target s
  | _ => s.complain ch "kill: usage"

def sleep : Tool := fun _ _ s => s.withStatus 0

def succeed : Tool := fun _ _ s => s.withStatus 0

def fail : Tool := fun _ _ s => s.withStatus 1

/-! ### Finding tools -/

/-- Tools that are files of their own, too. -/
def programs : List (String × Tool) :=
  [("true", succeed), ("false", fail), ("printf", printf), ("cat", cat), ("rm", rm), ("cp", cp),
   ("mv", mv), ("mkdir", mkdir), ("touch", touch), ("sed", sed), ("grep", grep), ("head", head),
   ("tail", tail), ("wc", wc), ("yes", yes), ("basename", basename), ("dirname", dirname),
   ("pwd", pwd), ("tee", tee), ("seq", seq), ("tr", tr), ("sort", sort), ("test", test),
   ("[", bracket), ("sleep", sleep), ("kill", kill)]

def builtin? (name : String) : Option Tool :=
  if name = "echo" then some echo else if name = ":" then some succeed else programs.lookup name

def program? (name : String) : Option Tool :=
  if name = "echo" then some plainEcho else programs.lookup name

end PrecompiledHeaders.Shell
