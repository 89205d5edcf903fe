import KnowledgeDesk.Config
import KnowledgeDesk.Lib.Regex

/-!
# PII detection and redaction

`pii.py`: four patterns, searched for to flag a document and substituted one after the other to
redact text.
-/

namespace KnowledgeDesk.Pii

open Regex

variable (env : Env)

/-- `[A-Za-z0-9]`. -/
def asciiAlnum (c : Char) : Bool := c.isAlphanum

/-- `[A-Za-z0-9._%+-]+@[A-Za-z0-9.-]+\.[A-Za-z]{2,}` -/
def email : Re :=
  seqs [plus (.char fun c => asciiAlnum c || "._%+-".toList.contains c), lit "@",
    plus (.char fun c => asciiAlnum c || ".-".toList.contains c), lit ".",
    .rep (.char Char.isAlpha) 2 none true]

/-- `\b\d{3}-\d{2}-\d{4}\b` -/
def ssn : Re :=
  seqs [wordBoundary env.isWord, exactly 3 digit, lit "-", exactly 2 digit, lit "-", exactly 4 digit,
    wordBoundary env.isWord]

/-- `\b(?:\d[ -]?){13,16}\b` -/
def creditCard : Re :=
  seqs [wordBoundary env.isWord, between 13 16 (.seq digit (opt (oneOf " -"))),
    wordBoundary env.isWord]

/-- `[-.\s]` -/
def phoneSep : Re := .char fun c => c == '-' || c == '.' || PyText.isSpace c

/-- `\b\d{3}[-.\s]\d{3}[-.\s]\d{4}\b` -/
def phone : Re :=
  seqs [wordBoundary env.isWord, exactly 3 digit, phoneSep, exactly 3 digit, phoneSep, exactly 4 digit,
    wordBoundary env.isWord]

/-- `_PATTERNS`, with the marker `[REDACTED-TYPE]` of each. -/
def patterns : List (String × Re × String) :=
  [("email", email, "[REDACTED-EMAIL]"), ("ssn", ssn env, "[REDACTED-SSN]"),
    ("credit_card", creditCard env, "[REDACTED-CREDIT_CARD]"), ("phone", phone env, "[REDACTED-PHONE]")]

/-- `detect_types`: the sorted names of the patterns the text matches somewhere. -/
def detectTypes (text : String) : List String :=
  Table.orderBy codePointLe
    (((patterns env).filter fun p => search p.2.1 text.toList).map fun p => p.1)

/-- `redact`. -/
def redact (text : String) : String :=
  .ofList ((patterns env).foldl (fun t p => sub p.2.1 p.2.2.toList t) text.toList)

/-- `redact_detail`: the string values of an audit entry's detail, redacted. -/
def redactDetail (detail : List (String × DetailValue)) : List (String × DetailValue) :=
  detail.map fun
    | (k, .str s) => (k, .str (redact env s))
    | kv => kv

end KnowledgeDesk.Pii
