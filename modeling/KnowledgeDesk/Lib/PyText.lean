import Mathlib.Data.List.Basic

/-!
# Text as Python reads it

A `str` is its list of code points. The character classes are those of the Unicode database the
interpreter carries (16.0): white space, decimal digits (`Nd`) and format characters (`Cf`) are
tabulated here; what needs a large table (case mappings, alphanumerics) is left to the user of the
library.
-/

namespace PyText

/-- The code points for which `str.isspace` holds, which are also those of `\s`. -/
def spaces : List Nat :=
  [0x9, 0xa, 0xb, 0xc, 0xd, 0x1c, 0x1d, 0x1e, 0x1f, 0x20, 0x85, 0xa0, 0x1680, 0x2000, 0x2001, 0x2002,
    0x2003, 0x2004, 0x2005, 0x2006, 0x2007, 0x2008, 0x2009, 0x200a, 0x2028, 0x2029, 0x202f, 0x205f,
    0x3000]

/-- The code points of the digits zero; each starts a block of ten in numeric order. -/
def zeros : List Nat :=
  [0x30, 0x660, 0x6f0, 0x7c0, 0x966, 0x9e6, 0xa66, 0xae6, 0xb66, 0xbe6, 0xc66, 0xce6, 0xd66, 0xde6,
    0xe50, 0xed0, 0xf20, 0x1040, 0x1090, 0x17e0, 0x1810, 0x1946, 0x19d0, 0x1a80, 0x1a90, 0x1b50, 0x1bb0,
    0x1c40, 0x1c50, 0xa620, 0xa8d0, 0xa900, 0xa9d0, 0xa9f0, 0xaa50, 0xabf0, 0xff10, 0x104a0, 0x10d30,
    0x10d40, 0x11066, 0x110f0, 0x11136, 0x111d0, 0x112f0, 0x11450, 0x114d0, 0x11650, 0x116c0, 0x116d0,
    0x116da, 0x11730, 0x118e0, 0x11950, 0x11bf0, 0x11c50, 0x11d50, 0x11da0, 0x11f50, 0x16130, 0x16a60,
    0x16ac0, 0x16b50, 0x16d70, 0x1ccf0, 0x1d7ce, 0x1d7d8, 0x1d7e2, 0x1d7ec, 0x1d7f6, 0x1e140, 0x1e2f0,
    0x1e4f0, 0x1e5f1, 0x1e950, 0x1fbf0]

/-- The ranges of the category `Cf`. -/
def formats : List (Nat × Nat) :=
  [(0xad, 0xad), (0x600, 0x605), (0x61c, 0x61c), (0x6dd, 0x6dd), (0x70f, 0x70f), (0x890, 0x891),
    (0x8e2, 0x8e2), (0x180e, 0x180e), (0x200b, 0x200f), (0x202a, 0x202e), (0x2060, 0x2064),
    (0x2066, 0x206f), (0xfeff, 0xfeff), (0xfff9, 0xfffb), (0x110bd, 0x110bd), (0x110cd, 0x110cd),
    (0x13430, 0x1343f), (0x1bca0, 0x1bca3), (0x1d173, 0x1d17a), (0xe0001, 0xe0001), (0xe0020, 0xe007f)]

/-- `str.isspace`, `\s`. -/
def isSpace (c : Char) : Bool := spaces.contains c.toNat

/-- `str.isdecimal`, `\d`. -/
def isDigit (c : Char) : Bool := zeros.any fun z => z ≤ c.toNat && c.toNat < z + 10

/-- The value of a decimal digit. -/
def digitValue (c : Char) : Nat :=
  match zeros.find? fun z => z ≤ c.toNat && c.toNat < z + 10 with
  | some z => c.toNat - z
  | none => 0

/-- `unicodedata.category(c) == "Cf"`. -/
def isFormat (c : Char) : Bool := formats.any fun r => r.1 ≤ c.toNat && c.toNat ≤ r.2

/-- `int(s)` of a run of decimal digits. -/
def intOfDigits (s : List Char) : Nat := s.foldl (fun n c => 10 * n + digitValue c) 0

/-- `str(n)` is made of ASCII digits. -/
theorem isDigit_toString {n : Nat} {c : Char} (hc : c ∈ (toString n).toList) : c.isDigit = true := by
  rw [Nat.toString_eq_repr, Nat.toList_repr] at hc
  exact Nat.isDigit_of_mem_toDigits (by decide) (Nat.le_refl _) hc

/-- No digit is white space. -/
theorem isSpace_of_isDigit {c : Char} (h : isDigit c = true) : isSpace c = false := by
  have hspaces : ∀ n ∈ spaces, zeros.any (fun z => z ≤ n && n < z + 10) = false := by decide
  rw [isSpace, List.contains_eq_mem, decide_eq_false_iff_not]
  intro hmem
  rw [isDigit, hspaces _ hmem] at h
  exact absurd h (by decide)

/-- `s.lstrip()`. -/
def lstrip (s : List Char) : List Char := s.dropWhile isSpace

/-- `s.strip()`. -/
def strip (s : List Char) : List Char := (lstrip (lstrip s).reverse).reverse

/-- `s.split()`: the maximal runs without white space. The accumulator is the word being read,
its characters in reverse. -/
def splitAux : List Char → List Char → List (List Char)
  | word, [] => if word.isEmpty then [] else [word.reverse]
  | word, c :: s =>
    if isSpace c then
      if word.isEmpty then splitAux [] s else word.reverse :: splitAux [] s
    else splitAux (c :: word) s

/-- `s.split()`. -/
def split (s : List Char) : List (List Char) := splitAux [] s

/-- The code points at which `str.splitlines` breaks a line; `\r\n` is one break. -/
def lineBreaks : List Nat := [0xa, 0xb, 0xc, 0xd, 0x1c, 0x1d, 0x1e, 0x85, 0x2028, 0x2029]

/-- The lines of a text of which `line` has been read, latest character first. -/
def splitlinesAux : List Char → List Char → List (List Char)
  | line, [] => if line.isEmpty then [] else [line.reverse]
  | line, '\r' :: '\n' :: s => line.reverse :: splitlinesAux [] s
  | line, c :: s =>
    if lineBreaks.contains c.toNat then line.reverse :: splitlinesAux [] s else splitlinesAux (c :: line) s

/-- `s.splitlines()`. -/
def splitlines (s : List Char) : List (List Char) := splitlinesAux [] s

/-- The most digits that `int` converts. -/
def maxStrDigits : Nat := 4300

/-- `int(s)` of a run of decimal digits; none where it raises. -/
def int? (s : List Char) : Option Nat := if s.length ≤ maxStrDigits then some (intOfDigits s) else none

/-- `sep in s`: whether one text occurs in another. -/
def contains (s sub : List Char) : Bool := s.tails.any sub.isPrefixOf

/-- `s.strip()` of a string. -/
def stripStr (s : String) : String := .ofList (strip s.toList)

end PyText
