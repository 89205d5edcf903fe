import KnowledgeDesk.Lib.PyText
import KnowledgeDesk.Lib.Table

/-!
# Folding text to a comparison form

`normalize.py`: text is matched on its folded form and rewritten on the original, through the index each
folded character came from.
-/

namespace KnowledgeDesk.Normalize

/-- The Cyrillic rows of `_LOOKALIKES`. -/
def cyrillic : List (Char × Char) :=
  [('А', 'A'), ('В', 'B'), ('Е', 'E'), ('К', 'K'), ('М', 'M'), ('Н', 'H'), ('О', 'O'), ('Р', 'P'),
    ('С', 'C'), ('Т', 'T'), ('У', 'Y'), ('Х', 'X'), ('Ѕ', 'S'), ('І', 'I'), ('Ј', 'J'), ('а', 'a'),
    ('в', 'b'), ('е', 'e'), ('к', 'k'), ('м', 'm'), ('н', 'h'), ('о', 'o'), ('р', 'p'), ('с', 'c'),
    ('т', 't'), ('у', 'y'), ('х', 'x'), ('ѕ', 's'), ('і', 'i'), ('ј', 'j'), ('ԁ', 'd'), ('ɡ', 'g'),
    ('ⅼ', 'l'), ('ո', 'n'), ('ս', 'u')]

/-- The Greek rows of `_LOOKALIKES`. -/
def greek : List (Char × Char) :=
  [('Α', 'A'), ('Β', 'B'), ('Ε', 'E'), ('Ζ', 'Z'), ('Η', 'H'), ('Ι', 'I'), ('Κ', 'K'), ('Μ', 'M'),
    ('Ν', 'N'), ('Ο', 'O'), ('Ρ', 'P'), ('Τ', 'T'), ('Υ', 'Y'), ('Χ', 'X'), ('ο', 'o'), ('ν', 'v'),
    ('α', 'a'), ('ρ', 'p'), ('τ', 't'), ('υ', 'u'), ('χ', 'x')]

/-- The fullwidth Latin rows of `_LOOKALIKES`. -/
def fullwidth : List (Char × Char) :=
  (List.range 26).map (fun i => (Char.ofNat (0xff21 + i), Char.ofNat ('A'.toNat + i))) ++
    (List.range 26).map fun i => (Char.ofNat (0xff41 + i), Char.ofNat ('a'.toNat + i))

/-- The punctuation and the curly quotes of `_LOOKALIKES`. -/
def punctuation : List (Char × Char) :=
  [('＜', '<'), ('＞', '>'), ('／', '/'), ('＿', '_'), ('－', '-'), ('‐', '-'), ('‑', '-'), ('–', '-'),
    ('—', '-'), ('﹘', '-'), ('\u201c', '"'), ('\u201d', '"'), ('\u201e', '"'), ('\u2033', '"'),
    ('\u2018', '\u0027'), ('\u2019', '\u0027'), ('\u201a', '\u0027')]

/-- `_LOOKALIKES`. -/
def LOOKALIKES : List (Char × Char) := cyrillic ++ greek ++ fullwidth ++ punctuation

/-- `_LOOKALIKES.get(ch, ch)`. -/
def foldChar (c : Char) : Char := (LOOKALIKES.lookup c).getD c

/-- `_INVISIBLE`. -/
def INVISIBLE : List Char := ['\u00ad', '\u200b', '\u2060', '\ufeff']

/-- `is_invisible`. -/
def isInvisible (c : Char) : Bool := INVISIBLE.contains c || PyText.isFormat c

/-- The loop of `fold` from index `i` on: each visible character folded, with its index. -/
def foldFrom : Nat → List Char → List (Char × Nat)
  | _, [] => []
  | i, c :: text => if isInvisible c then foldFrom (i + 1) text else (foldChar c, i) :: foldFrom (i + 1) text

/-- The folded text that `fold` returns. -/
def fold (text : List Char) : List Char := (foldFrom 0 text).map (·.1)

/-- The origins that `fold` returns. -/
def origin (text : List Char) : List Nat := (foldFrom 0 text).map (·.2)

/-- `original_span`. -/
def originalSpan (origin : List Nat) (start stop length : Nat) : Nat × Nat :=
  if origin.length ≤ start then (length, length)
  else
    let first := origin.getD start 0
    let last := if 0 < stop ∧ stop ≤ origin.length then origin.getD (stop - 1) 0
      else origin.getD (origin.length - 1) 0
    (first, last + 1)

/-- `sorted(spans, reverse=True)`: the later span first. -/
def laterFirst (a b : Nat × Nat) : Bool := decide (b.1 < a.1 ∨ (b.1 = a.1 ∧ b.2 ≤ a.2))

/-- `replace_folded`: right to left, so that the spans to the left keep their indices. -/
def replaceFolded (text : List Char) (spans : List (Nat × Nat)) (marker : List Char) : List Char :=
  (Table.orderBy laterFirst spans).foldl
    (fun text span => text.take span.1 ++ marker ++ text.drop span.2) text

end KnowledgeDesk.Normalize
