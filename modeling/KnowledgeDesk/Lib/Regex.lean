import KnowledgeDesk.Lib.PyText

/-!
# Regular expressions as a backtracking matcher reads them

The fragment of Python's `re` made of character classes, sequence, alternation, greedy and lazy
bounded repetition, capturing groups and zero-width assertions. `Re.ends` lists every way a pattern
matches at a position in the order in which the backtracking matcher tries them, so the head of the
list is the match Python reports.
-/

namespace Regex

/-- A position in the subject: the characters before it, nearest first, the characters after it, and
the groups captured so far, latest first. -/
structure State where
  before : List Char
  after : List Char
  groups : List (Nat × List Char)

/-- A pattern. -/
inductive Re where
  /-- The empty pattern. -/
  | eps
  /-- One character of a class. -/
  | char (p : Char → Bool)
  | seq (r s : Re)
  | alt (r s : Re)
  /-- Between `lo` and `hi` times (`none` for no bound), as often as possible when `greedy`. -/
  | rep (r : Re) (lo : Nat) (hi : Option Nat) (greedy : Bool)
  /-- A capturing group. -/
  | cap (i : Nat) (r : Re)
  /-- A condition on the characters before and after the position, consuming nothing. -/
  | assert (p : List Char → List Char → Bool)

/-- What `t` has consumed since `s`. -/
def State.consumed (s t : State) : List Char := s.after.take (s.after.length - t.after.length)

/-- The ways of iterating `step` between `lo` and `hi` times, in order of priority. An iteration past
the minimum that consumes nothing is cut off, as `re` does; the fuel is the number of iterations. -/
def iterate (step : State → List State) (greedy : Bool) : Nat → Nat → Option Nat → State → List State
  | 0, lo, _, s => if lo == 0 then [s] else []
  | fuel + 1, lo, hi, s =>
    let more := if hi == some 0 then [] else
      (step s).flatMap fun t =>
        if lo == 0 && t.after.length == s.after.length then []
        else iterate step greedy fuel (lo - 1) (hi.map (· - 1)) t
    if 0 < lo then more else if greedy then more ++ [s] else s :: more

/-- The ways the pattern matches from a position, in order of priority. -/
def Re.ends : Re → State → List State
  | .eps, s => [s]
  | .char p, s => match s.after with
    | [] => []
    | c :: cs => if p c then [{ s with before := c :: s.before, after := cs }] else []
  | .seq r q, s => (r.ends s).flatMap q.ends
  | .alt r q, s => r.ends s ++ q.ends s
  | .rep r lo hi greedy, s => iterate r.ends greedy (s.after.length + lo + 1) lo hi s
  | .cap i r, s => (r.ends s).map fun t => { t with groups := (i, s.consumed t) :: t.groups }
  | .assert p, s => if p s.before s.after then [s] else []

/-- A match: its span in the subject and its groups. -/
structure Match where
  start : Nat
  stop : Nat
  groups : List (Nat × List Char)

/-- `m.group(i)`. -/
def Match.group (m : Match) (i : Nat) : List Char := (m.groups.lookup i).getD []

/-- The matches from position `pos` on, left to right and without overlap. The fuel is the number of
positions left. -/
def scan (r : Re) : Nat → Nat → List Char → List Char → List Match
  | 0, _, _, _ => []
  | fuel + 1, pos, before, after =>
    match (r.ends ⟨before, after, []⟩).head? with
    | some t =>
      let len := after.length - t.after.length
      if len == 0 then match after with
        | [] => [⟨pos, pos, t.groups⟩]
        | c :: cs => ⟨pos, pos, t.groups⟩ :: scan r fuel (pos + 1) (c :: before) cs
      else ⟨pos, pos + len, t.groups⟩ :: scan r fuel (pos + len) t.before t.after
    | none => match after with
      | [] => []
      | c :: cs => scan r fuel (pos + 1) (c :: before) cs

/-- `r.finditer(text)`. -/
def finditer (r : Re) (text : List Char) : List Match := scan r (text.length + 1) 0 [] text

/-- Whether `r.search(text)` finds a match. -/
def search (r : Re) (text : List Char) : Bool := !(finditer r text).isEmpty

/-- The text with the spans of `ms`, in order, replaced by `repl`; `pos` is the position of `text` in
the subject. -/
def substitute (repl : List Char) : List Match → Nat → List Char → List Char
  | [], _, text => text
  | m :: ms, pos, text =>
    text.take (m.start - pos) ++ repl ++ substitute repl ms m.stop (text.drop (m.stop - pos))

/-- `r.sub(repl, text)` for a replacement without group references. -/
def sub (r : Re) (repl text : List Char) : List Char := substitute repl (finditer r text) 0 text

/-! ## Building patterns -/

/-- The patterns one after the other. -/
def seqs : List Re → Re
  | [] => .eps
  | [r] => r
  | r :: rs => .seq r (seqs rs)

/-- A literal text. -/
def lit (s : String) : Re := seqs (s.toList.map fun c => .char (· == c))

/-- Whether `IGNORECASE` identifies `d` with the ASCII letter or other character `c`: equal up to
ASCII case, or one of the non-ASCII characters that have `c` as a case variant. -/
def sameLetter (c d : Char) : Bool :=
  c.toLower == d.toLower || (c.toLower == 's' && d == 'ſ') || (c.toLower == 'k' && d == '\u212a') ||
    (c.toLower == 'i' && (d == 'ı' || d == 'İ'))

/-- A literal text under `IGNORECASE`. -/
def litIgnoreCase (s : String) : Re := seqs (s.toList.map fun c => .char (sameLetter c))

/-- One character of the list. -/
def oneOf (s : String) : Re := .char (s.toList.contains ·)

/-- `r*`, `r+`, `r?`, and `r{lo,hi}`. -/
def star (r : Re) : Re := .rep r 0 none true
def plus (r : Re) : Re := .rep r 1 none true
def opt (r : Re) : Re := .rep r 0 (some 1) true
def between (lo hi : Nat) (r : Re) : Re := .rep r lo (some hi) true
def exactly (n : Nat) (r : Re) : Re := .rep r n (some n) true

/-- `\s` and `\d`. -/
def space : Re := .char PyText.isSpace
def digit : Re := .char PyText.isDigit

/-- `\b`, where `isWord` is `\w`. -/
def wordBoundary (isWord : Char → Bool) : Re :=
  .assert fun before after => (before.head?.any isWord) != (after.head?.any isWord)

/-- `^` under `MULTILINE`. -/
def lineStart : Re := .assert fun before _ => before.head?.all (· == '\n')

/-- `(?<!c)`. -/
def notAfter (c : Char) : Re := .assert fun before _ => before.head? != some c

end Regex
