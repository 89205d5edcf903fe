import KnowledgeDesk.Lib.Generator
import KnowledgeDesk.OutputChecks

/-!
# The assistant

`assistant.answer_stream` as a generator. The database calls it makes are operations, each a method of
`TenantScope`, and so are writing the audit log (which swallows what goes wrong), waiting for the
provider's next event, and drawing the reference of an error. The traces and the log, which nobody the
frames go to can see, are left out, except that an active tracer asks for `retrieval_stats`.
-/

namespace KnowledgeDesk

open Providers

/-- An entry of the `sources` frame. -/
structure Source where
  documentId : String
  ordinal : Nat
  path : String
  deriving DecidableEq

/-- The events of the stream. -/
inductive Frame where
  | «meta» (answerId : Uuid) (provider : String)
  | sources (sources : List Source)
  | token (text : String)
  | done (inputTokens outputTokens : Nat) (costUsd : ℚ≥0) (warnings : List OutputChecks.Finding)
  | error (message : String)
  deriving DecidableEq

/-- The database calls of `answer_stream`. -/
inductive AskCall where
  | spendLast24h
  | questionsThisMonth
  | platformSpendToday
  | recordAnswer (question provider : String) (refused : Bool)
  | markBlocked (answerId : Uuid)
  | search (queryEmbedding : Embedding) (k : Nat)
  | retrievalStats
  | finalizeAnswer (answerId : Uuid) (usage : Usage) (estimated : Bool)
  deriving DecidableEq

namespace AskCall

/-- What a call returns. -/
abbrev Ret : AskCall → Type
  | .spendLast24h | .platformSpendToday => ℚ≥0
  | .questionsThisMonth => Nat
  | .recordAnswer .. => Uuid
  | .search .. => List Context
  | .retrievalStats => RetrievalStats
  | .markBlocked .. | .finalizeAnswer .. => Unit

/-- A call under a context, with the id it may draw and the time. -/
def run (env : Env) (ctx : AuthContext) (fresh : Uuid) (now : Time) : (call : AskCall) → Scope call.Ret
  | .spendLast24h => KnowledgeDesk.spendLast24h ctx now
  | .questionsThisMonth => KnowledgeDesk.questionsThisMonth ctx now
  | .platformSpendToday => KnowledgeDesk.platformSpendToday now
  | .recordAnswer question provider refused =>
    KnowledgeDesk.recordAnswer ctx question provider refused fresh now
  | .markBlocked answerId => KnowledgeDesk.markBlocked ctx answerId
  | .search queryEmbedding k => KnowledgeDesk.search env ctx queryEmbedding k
  | .retrievalStats => KnowledgeDesk.retrievalStats ctx
  | .finalizeAnswer answerId usage estimated =>
    KnowledgeDesk.finalizeAnswer env ctx answerId usage estimated now

end AskCall

/-- The operations of `answer_stream`. -/
inductive AskOp where
  | db (call : AskCall)
  /-- `audit.log` for the caller. -/
  | audit (action : String) (detail : List (String × DetailValue))
  /-- The provider's next event arrives. -/
  | receive (event : ProviderEvent)
  /-- `secrets.token_hex(4)`. -/
  | tokenHex
  deriving DecidableEq

/-- What an operation comes back with: a database call may raise. -/
abbrev AskOp.Reply : AskOp → Type
  | .db call => Except Err call.Ret
  | .audit .. | .receive .. => Unit
  | .tokenHex => String

/-- What can be raised in `answer_stream`: by a database call, by the embedder or the provider, or by
closing the generator. -/
inductive Exc where
  | db (e : Err)
  | other (repr : String)
  | generatorExit
  deriving DecidableEq

/-- The local variables that outlive the `try` block. -/
structure AskLocals where
  answerId : Option Uuid := none
  contexts : List Context := []
  streamed : List String := []
  billed : Bool := false
  deriving DecidableEq

/-- What happens to a stream. -/
abbrev AskEvent := Gen.Event AskOp AskOp.Reply Frame

/-- What is left of a stream. -/
abbrev AskGen := Gen AskOp AskOp.Reply Frame (Except Exc Unit × AskLocals)

/-- A statement of `answer_stream`. -/
abbrev Ask (α : Type) := Stmt AskOp AskOp.Reply Frame Exc AskLocals α

namespace Assistant

/-- `REFUSAL`. -/
def REFUSAL : String :=
  "I don't have anything I'm allowed to cite for that. Nothing in the" ++
    " documents you can access matches this question."

/-- A database call. -/
def callDb (call : AskCall) : Ask call.Ret :=
  Stmt.bind (Stmt.perform (AskOp.db call)) fun reply : Except Err call.Ret =>
    match reply with
    | .ok a => pure a
    | .error e => Stmt.raise (.db e)

/-- `audit.log(scope.org_id, scope.ctx.user_id, action, detail)`. -/
def audit (action : String) (detail : List (String × DetailValue)) : Ask Unit :=
  Stmt.perform (AskOp.audit action detail)

/-- The provider is resumed and comes back with an event. -/
def receive (event : ProviderEvent) : Ask Unit := Stmt.perform (AskOp.receive event)

/-- `secrets.token_hex(4)`. -/
def tokenHex : Ask String := Stmt.perform AskOp.tokenHex

/-- `yield`. -/
def send (frame : Frame) : Ask Unit := Stmt.yield .generatorExit frame

/-- What a stream is started with: the settings and tables, whether the tracer is active, the embedder
and the provider, the question and the number of passages to retrieve. -/
structure Request where
  env : Env
  tracing : Bool
  embedQuery : String → Except String Embedding
  provider : AnswerProvider
  question : String
  k : Nat

variable (req : Request)

/-- `_limit_block`. -/
def limitBlock : Ask (Option String) := do
  let spend : ℚ≥0 ← callDb .spendLast24h
  if req.env.settings.dailyBudgetUsd ≤ spend then return some "daily budget exhausted"
  else
    let questions : Nat ← callDb .questionsThisMonth
    if req.env.settings.monthlyQuestionCap ≤ questions then return some "monthly question limit reached"
    else
      let platform : ℚ≥0 ← callDb .platformSpendToday
      if req.env.settings.platformDailyBudgetUsd ≤ platform then
        return some "service daily budget exhausted"
      else return none

/-- `answer_id = scope.record_answer(...)`. -/
def recordAnswer (refused : Bool) : Ask Uuid := do
  let answerId : Uuid ← callDb (.recordAnswer req.question req.provider.name refused)
  Stmt.assign fun l => { l with answerId := some answerId }
  return answerId

/-- The branch of a request that is over a limit. -/
def blocked (reason : String) : Ask Unit := do
  let answerId ← recordAnswer req false
  let () ← callDb (.markBlocked answerId)
  audit "question.blocked" [("answer_id", .str (toString answerId)), ("reason", .str reason)]
  send (.meta answerId req.provider.name)
  send (.error s!"[LIMIT] request blocked: {reason}. No answer was generated.")

/-- `retrieval.search`. -/
def search : Ask (List Context) :=
  match req.embedQuery req.question with
  | .error exc => Stmt.raise (.other exc)
  | .ok embedding => callDb (.search embedding req.k)

/-- The tokens of a refusal: `word + " "` for each word. -/
def refusalTokens : List String :=
  (PyText.split REFUSAL.toList).map fun word => .ofList (word ++ [' '])

/-- The branch of a request that retrieves nothing. -/
def refuse : Ask Unit := do
  Stmt.forEach refusalTokens fun text => send (.token text)
  send (.done 0 0 0 [])

/-- The entry of a passage in the `sources` frame. -/
def sourceOf (c : Context) : Source := ⟨toString c.documentId, c.ordinal, c.path⟩

/-- What a usage event leads to. The answer is checked for the caller's information only. -/
def complete (env : Env) (answerId : Uuid) (contexts : List Context) (usage : Usage) : Ask Unit := do
  let () ← callDb (.finalizeAnswer answerId usage false)
  Stmt.assign fun l => { l with billed := true }
  let l ← Stmt.locals
  let warnings := OutputChecks.checkAnswer env (String.join l.streamed).toList contexts
  (if warnings.isEmpty then pure () else
    audit "answer.flagged" [("answer_id", .str (toString answerId)),
      ("codes", .str (",".intercalate (warnings.map (·.code))))])
  send (.done usage.inputTokens usage.outputTokens usage.costUsd warnings)

/-- What a token event leads to. -/
def passOn (text : String) : Ask Unit := do
  Stmt.assign fun l => { l with streamed := l.streamed ++ [text] }
  send (.token text)

/-- The body of the loop over the provider's events. -/
def forward (env : Env) (answerId : Uuid) (contexts : List Context) (event : ProviderEvent) : Ask Unit := do
  receive event
  match event with
  | .usage usage => complete env answerId contexts usage
  | .token text => passOn text

/-- The loop over the provider's events, which may raise in the end. -/
def relay (answerId : Uuid) (contexts : List Context) : Ask Unit := do
  let run := req.provider.stream req.question contexts
  Stmt.forEach run.events (forward req.env answerId contexts)
  match run.raised with
  | none => return ()
  | some exc => Stmt.raise (.other exc)

/-- The branch of a request that is within the limits. -/
def answer : Ask Unit := do
  let contexts ← search req
  Stmt.assign fun l => { l with contexts }
  let refused := contexts.isEmpty
  let answerId ← recordAnswer req refused
  audit "question.asked" [("answer_id", .str (toString answerId)), ("refused", .bool refused)]
  let forged := countDefused contexts
  (if forged = 0 then pure () else
    audit "retrieval.grammar_defused" [("answer_id", .str (toString answerId)), ("spans", .num forged)])
  send (.meta answerId req.provider.name)
  if refused then refuse
  else
    (if req.tracing then callDb .retrievalStats >>= fun _ => pure () else pure ())
    send (.sources (contexts.map sourceOf))
    relay req answerId contexts

/-- The `try` block. -/
def attempt : Ask Unit := do
  match ← limitBlock req with
  | some reason => blocked req reason
  | none => answer req

/-- What the caller is told about an exception. -/
def failureMessage (reference : String) : String :=
  s!"Answer generation failed. Quote reference {reference} if you report this."

/-- The `except Exception` clause, which closing the generator is not caught by. -/
def onFailure : Exc → Option (Ask Unit)
  | .generatorExit => none
  | _ => some do
    let reference ← tokenHex
    send (.error (failureMessage reference))

/-- The `finally` block. -/
def settle : Ask Unit := do
  let l ← Stmt.locals
  match l.answerId with
  | none => return ()
  | some answerId =>
    if l.billed || l.streamed.isEmpty then return ()
    else callDb (.finalizeAnswer answerId
      (req.provider.estimate req.question l.contexts (String.join l.streamed)) true)

/-- `answer_stream`. -/
def answerStream : Ask Unit := ((attempt req).tryExcept onFailure).tryFinally (settle req)

/-- A call of `answer_stream`, before its first `next`. -/
def start : AskGen := answerStream req {}

end Assistant

end KnowledgeDesk
