import KnowledgeDesk.Providers

/-!
# Checks on a finished answer

`outputchecks.py`: what `check_answer` finds in an answer, read on its folded form.
-/

namespace KnowledgeDesk.OutputChecks

open Regex

variable (env : Env)

/-- `\[\s*(\d{1,3})\s*\]`. -/
def CITATION : Re :=
  seqs [.char (· == '['), star space, .cap 1 (between 1 3 digit), star space, .char (· == ']')]

/-- `\[\s*(\d{1,3})\s*\][^"]{0,40}?"([^"]{1,300}?)"`. -/
def CITED_QUOTE : Re :=
  seqs [.char (· == '['), star space, .cap 1 (between 1 3 digit), star space, .char (· == ']'),
    .rep (.char (· != '"')) 0 (some 40) false, .char (· == '"'),
    .cap 2 (.rep (.char (· != '"')) 1 (some 300) false), .char (· == '"')]

/-- `[^)\s]+`, the address of a link. -/
def address : Re := .cap 1 (plus (.char fun c => c != ')' && !PyText.isSpace c))

/-- `\[[^\]]*\]\(\s*([^)\s]+)`. -/
def bracketed : Re :=
  seqs [.char (· == '['), star (.char (· != ']')), .char (· == ']'), .char (· == '('), star space, address]

/-- `!\[[^\]]*\]\(\s*([^)\s]+)`. -/
def MD_IMAGE : Re := .seq (.char (· == '!')) bracketed

/-- `(?<!!)\[[^\]]*\]\(\s*([^)\s]+)`. -/
def MD_LINK : Re := .seq (notAfter '!') bracketed

/-- `_comparable`. -/
def comparable (text : List Char) : String :=
  env.casefold (.ofList ([' '].intercalate (PyText.split (Normalize.fold text))))

/-- A finding. -/
structure Finding where
  code : String
  detail : String
  deriving DecidableEq

/-- `sorted` of a set of numbers. -/
def sortedSet (ns : List Nat) : List Nat := Table.orderBy (fun a b => decide (a ≤ b)) ns.dedup

/-- `', '.join(f'[{n}]' for n in ns)`. -/
def labels (ns : List Nat) : String := ", ".intercalate (ns.map fun n => s!"[{n}]")

/-- `int(m.group(1))`. -/
def citedNumber (m : Match) : Nat := PyText.intOfDigits (m.group 1)

/-- Whether the cited number is in `range(1, len(contexts) + 1)`. -/
def inRange (contexts : List Context) (n : Nat) : Bool := 1 ≤ n && n ≤ contexts.length

/-- Whether the check of a cited quote finds it in the passage it cites. -/
def quoteFound (contexts : List Context) (m : Match) : Bool :=
  let passage := (contexts.map fun c => comparable env c.text.toList).getD (citedNumber m - 1) ""
  PyText.contains passage.toList (comparable env (m.group 2)).toList

/-- The labels of the cited quotes that are not in the passage they cite. -/
def unsupported (folded : List Char) (contexts : List Context) : List String :=
  ((finditer CITED_QUOTE folded).filter fun m =>
    inRange contexts (citedNumber m) && !quoteFound env contexts m).map fun m => s!"[{citedNumber m}]"

/-- A finding with this code, unless there is nothing to report. -/
def report {α : Type} (code : String) (found : List α) (detail : List α → String) : List Finding :=
  if found.isEmpty then [] else [⟨code, detail found⟩]

/-- `check_answer`. -/
def checkAnswer (answer : List Char) (contexts : List Context) : List Finding :=
  let folded := Normalize.fold answer
  let cited := (finditer CITATION folded).map citedNumber
  let quoted := (finditer CITED_QUOTE folded).map citedNumber
  let bad := sortedSet (cited.filter fun n => !inRange contexts n)
  let unquoted := sortedSet (cited.filter fun n => inRange contexts n && !quoted.contains n)
  let urls := (finditer MD_IMAGE folded).map fun m => String.ofList (m.group 1)
  let links := (finditer MD_LINK folded).map fun m => String.ofList (m.group 1)
  report "citation_out_of_range" bad
      (fun bad => s!"cited {labels bad} with {contexts.length} passage(s) retrieved") ++
    report "citation_unsupported" (unsupported env folded contexts)
      (fun found => "quoted text not found in the cited passage: " ++
        ", ".intercalate (Table.orderBy codePointLe found.dedup)) ++
    report "citation_unquoted" unquoted
      (fun unquoted => s!"cited without an evidence span: {labels unquoted}") ++
    report "fence_echoed" (if Providers.markerShaped folded then [()] else [])
      (fun _ => "the answer reproduced an untrusted-content marker") ++
    report "system_prompt_echoed"
      (if PyText.contains folded Providers.SYSTEM_CANARY.toList then [()] else [])
      (fun _ => "the answer repeated part of the system prompt") ++
    report "markdown_image" urls
      (fun urls =>
        let first := urls.headD ""
        s!"answer embedded {urls.length} image URL(s): {first}") ++
    report "markdown_link" links
      (fun links =>
        let first := links.headD ""
        s!"answer embedded {links.length} link URL(s): {first}")

end KnowledgeDesk.OutputChecks
