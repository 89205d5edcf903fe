import KnowledgeDesk.Schema
import KnowledgeDesk.Lib.PyText

/-!
# Settings and the environment

`config.Settings` as far as the model reads it, and what the code takes from outside the repository:
the parts of the Unicode database that are not tabulated, SHA-256, and of the database its collation, the
vector extension's distance and the rounded addition. The results hold for every environment.
-/

namespace KnowledgeDesk

/-- `config.Settings`. -/
structure Settings where
  sessionTtlHours : Nat := 720
  chunkSize : Int := 1000
  chunkOverlap : Int := 150
  jobMaxAttempts : Nat := 3
  jobStaleAfterSeconds : Nat := 600
  answerModel : String := "claude-sonnet-5"
  retrievalK : Nat := 6
  dailyBudgetUsd : ℚ≥0 := (5 : Nat)
  platformDailyBudgetUsd : ℚ≥0 := (25 : Nat)
  monthlyQuestionCap : Nat := 1000
  orgDocCap : Nat := 1000
  orgStorageBytesCap : Nat := 50000000

/-- What the modelled code takes from outside the repository. -/
structure Env where
  settings : Settings
  /-- `str.isalnum` of one character, which with the underscore is `\w`. -/
  isAlnum : Char → Bool
  /-- `str.lower`. -/
  lower : String → String
  /-- `str.casefold`. -/
  casefold : String → String
  /-- `hashlib.sha256(s.encode("utf-8")).hexdigest()`. -/
  sha256 : String → String
  /-- `auth.hash_password`, with the salt `bcrypt.gensalt` drew. -/
  hashPassword : String → String → String
  /-- `auth.verify_password`. -/
  verifyPassword : String → String → Bool
  /-- The order of the database's collation. -/
  collate : String → String → Bool
  /-- pgvector's `<=>`. -/
  distance : Embedding → Embedding → ℚ
  /-- `+` of two `double precision` numbers, which rounds. -/
  addDouble : ℚ≥0 → ℚ≥0 → ℚ≥0

/-- `\w`. -/
def Env.isWord (env : Env) (c : Char) : Bool := env.isAlnum c || c == '_'

/-- Strings in the order of their code points, as `sorted` and the `C` collation have them. -/
def codePointLe (a b : String) : Bool := !decide (b < a)

/-- An environment for runs on ASCII text: the digests are those of the texts the runs use. -/
def asciiEnv (digest : String → String) : Env where
  settings := {}
  isAlnum := Char.isAlphanum
  lower := String.toLower
  casefold := String.toLower
  sha256 := digest
  hashPassword := fun password salt => salt ++ password
  verifyPassword := fun password hash => password.toList.isSuffixOf hash.toList
  collate := codePointLe
  distance := fun _ _ => 0
  addDouble := fun a b => a + b

end KnowledgeDesk
