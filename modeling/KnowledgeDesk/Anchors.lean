import KnowledgeDesk.Lib.Dict
import KnowledgeDesk.Lib.RegexHits
import Mathlib.Algebra.Group.Nat.Defs

/-!
# The line anchors of the docs

`scripts/anchors.py`: every link of a Markdown text to lines of a module is checked against the symbol that
its title names, and rewritten. The tree that `ast.parse` makes of a module's source is given with the
module, and a doc with its text.
-/

namespace KnowledgeDesk.Anchors

open Regex

/-! ## The pattern -/

/-- `[a-z_]`. -/
def isModuleChar (c : Char) : Bool := ('a' ≤ c && c ≤ 'z') || c == '_'

/-- `[a-z_]+\.py`. -/
def moduleName : Re :=
  seqs [plus (.char isModuleChar), .char (· == '.'), .char (· == 'p'), .char (· == 'y')]

/-- `[\d-]`. -/
def isRangeChar (c : Char) : Bool := PyText.isDigit c || c == '-'

/-- `[^)\s]`. -/
def isPathChar (c : Char) : Bool := c != ')' && !PyText.isSpace c

/-- `(?:-L(?P<end>\d+))?`. -/
def stopPart : Re := opt (seqs [.char (· == '-'), .char (· == 'L'), .cap 6 (plus digit)])

/-- `(?:\s+\"(?P<symbol>[^\"]+)\")?`. -/
def titlePart : Re :=
  opt (seqs [plus space, .char (· == '"'), .cap 7 (plus (.char (· != '"'))), .char (· == '"')])

/-- `LINK`, with the groups `text_mod`, `text_range`, `path`, `mod`, `start`, `end` and `symbol` as 1 to 7. -/
def LINK : Re :=
  seqs [.char (· == '['), .cap 1 moduleName, .char (· == ':'), .cap 2 (plus (.char isRangeChar)),
    .char (· == ']'), .char (· == '('),
    .cap 3 (.seq (.rep (.char isPathChar) 0 none false) (.cap 4 moduleName)),
    .char (· == '#'), .char (· == 'L'), .cap 5 (plus digit), stopPart, titlePart, .char (· == ')')]

/-! ## The symbols of a module -/

/-- A line number as `ast` gives it: from 1 on, in a C `int`. -/
abbrev Line := {n : Nat // 1 ≤ n ∧ n < 2 ^ 31}

/-- The first and the last line of a symbol. -/
abbrev Span := Line × Line

/-- Where a node stands. -/
structure Position where
  lineno : Line
  endLineno : Option Line

/-- The target of an assignment: an `ast.Name`, or something else. -/
inductive Target
  | name (id : String)
  | other

/-- A statement, as far as `symbol_ranges` looks at it; the decorators are the lines they start at. -/
inductive Stmt
  | classDef (name : String) (decorators : List Line) (position : Position) (body : List Stmt)
  | functionDef (name : String) (decorators : List Line) (position : Position)
  | asyncFunctionDef (name : String) (decorators : List Line) (position : Position)
  | assign (targets : List Target) (position : Position)
  | annAssign (target : Target) (position : Position)
  | other

/-- A module of the package: its file name, its source and the body that `ast.parse` makes of it. -/
structure SourceModule where
  name : String
  source : List Char
  body : List Stmt

/-- `node.lineno, node.end_lineno or node.lineno`. -/
def Position.span (p : Position) : Span := (p.lineno, p.endLineno.getD p.lineno)

/-- `span` of a definition. -/
def span (decorators : List Line) (p : Position) : Span :=
  let start := decorators.foldl min p.lineno
  (start, p.endLineno.getD start)

/-- What a statement of a class body adds. -/
def addMethod (className : String) (out : Dict String Span) : Stmt → Dict String Span
  | .functionDef name decorators p | .asyncFunctionDef name decorators p =>
    out.set s!"{className}.{name}" (span decorators p)
  | _ => out

/-- What the target of an assignment adds. -/
def addTarget (p : Position) (out : Dict String Span) : Target → Dict String Span
  | .name id => out.set id p.span
  | .other => out

/-- What a statement of the module adds. -/
def addSymbols (out : Dict String Span) : Stmt → Dict String Span
  | .classDef name decorators p body => body.foldl (addMethod name) (out.set name (span decorators p))
  | .functionDef name decorators p | .asyncFunctionDef name decorators p => out.set name (span decorators p)
  | .assign targets p => targets.foldl (addTarget p) out
  | .annAssign target p => addTarget p out target
  | .other => out

/-- `symbol_ranges`. -/
def symbolRanges (m : SourceModule) : Dict String Span := m.body.foldl addSymbols .empty

/-- What `run` keeps of a module: its entry of `ranges` and its entry of `lines`. -/
structure Source where
  ranges : Dict String Span
  lines : List (List Char)

/-- `ranges` and `lines`, by the name of the module. -/
def sources (package : List SourceModule) : Dict String Source :=
  package.foldl (fun out m => out.set m.name ⟨symbolRanges m, PyText.splitlines m.source⟩) .empty

/-! ## Repairing a link -/

/-- What is raised. -/
inductive Raised
  | valueError (detail : String)
  | indexError (detail : String)
  deriving DecidableEq

/-- A problem that `run` lists. -/
inductive Problem
  | noSymbol (rel mod symbol : String)
  | textDiffers (rel mod textRange expect : String)
  | blank (rel mod : String) (ns : List Nat)
  | moved (rel mod symbol : String) (want link : Nat × Nat)
  deriving DecidableEq

/-- The text of a problem; `repr` is Python's. -/
def Problem.message (repr : String → String) : Problem → String
  | .noSymbol rel mod symbol => s!"{rel}: {mod} has no symbol {repr symbol}"
  | .textDiffers rel mod textRange expect => s!"{rel}: text says {mod}:{textRange}, anchor says L{expect}"
  | .blank rel mod ns =>
    let lines := ",".intercalate (ns.map fun n => s!"L{n}")
    let verb := if 1 < ns.length then "are" else "is"
    s!"{rel}: {mod}:{lines} {verb} a blank line"
  | .moved rel mod symbol want link =>
    s!"{rel}: {mod} {repr symbol} is at L{want.1}-L{want.2}, link says L{link.1}-L{link.2}"

/-- The flags of `run`. -/
structure Mode where
  fix : Bool := false
  adopt : Bool := false
  tidy : Bool := false

/-- `int(s)`. -/
def int (s : List Char) : Except Raised Nat :=
  match PyText.int? s with
  | some n => .ok n
  | none => .error (.valueError (s!"Exceeds the limit ({PyText.maxStrDigits} digits) for integer string " ++
      s!"conversion: value has {s.length} digits; use sys.set_int_max_str_digits() to increase the limit"))

/-- What `repair` reads off a match; 0 is a missing end, and `[]` a missing symbol. -/
structure Anchor where
  text : List Char
  textRange : List Char
  path : List Char
  mod : List Char
  start : Nat
  stop : Nat
  symbol : List Char

/-- The first lines of `repair`. -/
def readAnchor (h : Hit) : Except Raised Anchor := do
  let start ← int (h.group 5)
  let stop ← if (h.group 6).isEmpty then .ok 0 else int (h.group 6)
  .ok ⟨h.text, h.group 2, h.group 3, h.group 4, start, stop, h.group 7⟩

/-- `f"{start}-{end}"`. -/
def pairText (start stop : Nat) : List Char := (toString start).toList ++ '-' :: (toString stop).toList

/-- `_render`. -/
def render (path mod : List Char) (start stop : Nat) (symbol : List Char) : List Char :=
  let ranged := stop ≠ 0 ∧ stop ≠ start
  let span := if ranged then pairText start stop else (toString start).toList
  let anchor := "#L".toList ++ (toString start).toList ++
    if ranged then "-L".toList ++ (toString stop).toList else []
  let title := if symbol.isEmpty then [] else " \"".toList ++ symbol ++ ['"']
  '[' :: (mod ++ ':' :: (span ++ ("](".toList ++ (path ++ (anchor ++ (title ++ [')']))))))

/-- `src[n - 1]`. -/
def lineAt (src : List (List Char)) (n : Nat) : Except Raised (List Char) :=
  match if n = 0 then src.getLast? else src[n - 1]? with
  | some line => .ok line
  | none => .error (.indexError "list index out of range")

/-- `line.strip() == ""`. -/
def isBlank (line : List Char) : Bool := (PyText.strip line).isEmpty

/-- The first loop of `_shrink`, which raises the start by at most `fuel`. -/
def shrinkStart (src : List (List Char)) (stop : Nat) : Nat → Nat → Except Raised Nat
  | 0, start => .ok start
  | fuel + 1, start =>
    if start < (if stop = 0 then start else stop) then do
      let line ← lineAt src start
      if isBlank line then shrinkStart src stop fuel (start + 1) else .ok start
    else .ok start

/-- The second loop of `_shrink`. -/
def shrinkStop (src : List (List Char)) (start : Nat) : Nat → Nat
  | 0 => 0
  | stop + 1 =>
    if start < stop + 1 ∧ stop + 1 ≤ src.length ∧ isBlank (src.getD stop []) then shrinkStop src start stop
    else stop + 1

/-- `_shrink`. -/
def shrink (src : List (List Char)) (start stop : Nat) : Except Raised (Nat × Nat) := do
  let start ← shrinkStart src stop (stop - start) start
  .ok (start, shrinkStop src start stop)

/-- `expect`: the range that the text of a link without a title is to have. -/
def expectText (start stop : Nat) : List Char :=
  if stop = 0 then (toString start).toList else pairText start stop

/-- `want_text`: the range that the text of a link to a symbol is to have. -/
def wantText (want : Span) : List Char :=
  if want.1 = want.2 then (toString want.1.val).toList else pairText want.1 want.2

/-- `(start, end or start)`. -/
def Anchor.lines (a : Anchor) : Nat × Nat := (a.start, if a.stop = 0 then a.start else a.stop)

/-- The branch of `repair` for a link without an intent. -/
def repairUntitled (mode : Mode) (rel : String) (src : Source) (a : Anchor) :
    Except Raised (List Char × List Problem) :=
  let expect := expectText a.start a.stop
  let mod := String.ofList a.mod
  let differs := if a.textRange = expect then []
    else [Problem.textDiffers rel mod (.ofList a.textRange) (.ofList expect)]
  if a.textRange ≠ expect ∧ mode.fix then .ok (render a.path a.mod a.start a.stop [], differs)
  else
    let blank := ([a.start, a.stop].filter (· ≠ 0)).filter fun n =>
      n ≤ src.lines.length && isBlank (src.lines.getD (n - 1) [])
    if blank.isEmpty then .ok (a.text, differs)
    else
      let problems := differs ++ [Problem.blank rel mod blank]
      if mode.tidy then do
        let (start, stop) ← shrink src.lines a.start a.stop
        .ok (render a.path a.mod start stop [], problems)
      else .ok (a.text, problems)

/-- The branch of `repair` for a link that is to stand for `symbol`, at `want`. -/
def repairTitled (mode : Mode) (rel : String) (a : Anchor) (symbol : String) (want : Span) :
    List Char × List Problem :=
  let rendered := render a.path a.mod want.1 want.2 symbol.toList
  if a.lines ≠ (want.1.val, want.2.val) ∨ a.textRange ≠ wantText want then
    let problems := [Problem.moved rel (.ofList a.mod) symbol (want.1, want.2) a.lines]
    if mode.fix || mode.adopt then (rendered, problems) else (a.text, problems)
  else if mode.adopt && a.symbol.isEmpty then (rendered, [])
  else (a.text, [])

/-- The symbol whose span the link has, the first in the order of the module. -/
def adopted (src : Source) (a : Anchor) : Option (String × Span) :=
  src.ranges.entries.find? fun e => (e.2.1.val, e.2.2.val) = a.lines

/-- `repair`: what replaces a match, and the problems that are noted. -/
def repair (mode : Mode) (package : Dict String Source) (rel : String) (h : Hit) :
    Except Raised (List Char × List Problem) := do
  let a ← readAnchor h
  match package.get? (.ofList a.mod) with
  | none => .ok (a.text, [])
  | some src =>
    if !a.symbol.isEmpty then
      let symbol := String.ofList a.symbol
      match src.ranges.get? symbol with
      | none => .ok (a.text, [.noSymbol rel (.ofList a.mod) symbol])
      | some want => .ok (repairTitled mode rel a symbol want)
    else if mode.adopt then
      match adopted src a with
      | some (symbol, want) => .ok (repairTitled mode rel a symbol want)
      | none => repairUntitled mode rel src a
    else repairUntitled mode rel src a

/-! ## The docs -/

/-- A Markdown file: its path from the root, and its text. -/
structure Doc where
  rel : String
  text : List Char
  deriving DecidableEq

/-- The loop over the docs: each that was repaired is written before the next is read, and what is raised
leaves the rest as it is. -/
def repairDocs (mode : Mode) (package : Dict String Source) : List Doc → List Doc × Except Raised (List Problem)
  | [] => ([], .ok [])
  | d :: ds =>
    match subWith LINK (repair mode package d.rel) d.text with
    | .error e => (d :: ds, .error e)
    | .ok (new, problems) =>
      let written := if new ≠ d.text ∧ (mode.fix || mode.adopt || mode.tidy) then { d with text := new } else d
      let rest := repairDocs mode package ds
      (written :: rest.1, rest.2.map (problems ++ ·))

/-- What `run` leaves: the docs, and the problems it lists unless it raised. -/
def run (mode : Mode) (package : List SourceModule) (docs : List Doc) : List Doc × Except Raised (List Problem) :=
  repairDocs mode (sources package) docs

/-- What `run` prints. -/
def printed (repr : String → String) (mode : Mode) (problems : List Problem) : List String :=
  if problems.isEmpty then ["All doc anchors resolve to the symbol they name."]
  else
    let verb := if mode.fix || mode.adopt || mode.tidy then "repaired" else "found"
    s!"{problems.length} anchor problem(s) {verb}:" :: problems.map fun p => "  " ++ p.message repr

/-- What `run` returns: the exit code. -/
def exitCode (mode : Mode) (problems : List Problem) : Nat :=
  if problems.isEmpty || mode.fix || mode.adopt || mode.tidy then 0 else 1

end KnowledgeDesk.Anchors
