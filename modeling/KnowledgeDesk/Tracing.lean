import KnowledgeDesk.Assistant

/-!
# Tracing

`tracing.AskTracer`, as far as what it hands to the Langfuse client goes. Any call of the client may
raise, and the methods swallow what it raises; what a call was handed has left all the same. Whether an
observation has been opened is all that is kept of the objects the client returns.
-/

namespace KnowledgeDesk

/-- A call of the client, or of an observation it returned. -/
inductive ClientCall where
  /-- `propagate_attributes(trace_name="ask", user_id=...)`. -/
  | propagateAttributes (userId : Uuid)
  /-- `_client.start_observation(name="ask", ...)`. -/
  | startRoot (input : String) (orgId : Uuid) (provider : String)
  | startRetrieval (input : String)
  | updateRetrieval (sources : List Source) (acl : Option RetrievalStats)
  | endRetrieval
  | startGeneration (model input : String)
  | updateGeneration (output : String) (inputTokens outputTokens : Nat) (costUsd : ℚ≥0)
  | endGeneration
  | setTraceIo (input output : String)
  | updateRoot (level statusMessage : Option String) (output : String)
  | endRoot
  deriving DecidableEq

/-- What of a call derives from a user or from a failure. -/
def ClientCall.texts : ClientCall → List String
  | startRoot input _ _ | startRetrieval input | startGeneration _ input => [input]
  | updateRetrieval sources _ => sources.map (·.path)
  | updateGeneration output _ _ _ => [output]
  | setTraceIo input output => [input, output]
  | updateRoot _ statusMessage output => statusMessage.toList ++ [output]
  | propagateAttributes _ | endRetrieval | endGeneration | endRoot => []

/-- `AskTracer`, with the calls it has made. -/
structure AskTracer where
  /-- `_question`, redacted. -/
  question : String
  model : String
  root : Bool := false
  retrieval : Bool := false
  gen : Bool := false
  answer : List String := []
  handed : List ClientCall := []

namespace AskTracer

/-- Where the tracer runs: the texts at which the redaction raises, and the calls of the client that
raise, by their number. -/
structure Surroundings where
  env : Env
  redactionRaises : String → Bool
  clientRaises : Nat → Bool

variable (sur : Surroundings)

/-- `_scrub`. -/
def scrub (text : String) : String :=
  if sur.redactionRaises text then "[REDACTION FAILED]" else Pii.redact sur.env text

/-- `_scrub_sources`. -/
def scrubSources (sources : List Source) : List Source :=
  sources.map fun s => { s with path := scrub sur s.path }

/-- The statements of a `try` block. -/
abbrev Block := Proc AskTracer Unit Unit

/-- A call of the client. -/
def call (c : ClientCall) : Block := fun t =>
  (if sur.clientRaises t.handed.length then .error () else .ok (), { t with handed := t.handed ++ [c] })

def assign (f : AskTracer → AskTracer) : Block := fun t => (.ok (), f t)

/-- An `if` without `else`. -/
def ifThen (condition : Bool) (body : Block) : Block := if condition then body else pure ()

/-- `try: ... except Exception: log.exception(...)`, with what the clause does besides logging. -/
def guarded (body : Block) (onError : AskTracer → AskTracer) (t : AskTracer) : AskTracer :=
  match body t with
  | (.ok (), t) => t
  | (.error (), t) => onError t

/-- The `try` block of `__init__`. -/
def openTrace (question : String) (orgId userId : Uuid) (providerName : String) : Block := do
  call sur (.propagateAttributes userId)
  call sur (.startRoot question orgId providerName)
  assign fun t => { t with root := true }
  call sur (.startRetrieval question)
  assign fun t => { t with retrieval := true }

/-- `__init__`, `configured` being whether there is a client. -/
def init (configured : Bool) (question : String) (orgId userId : Uuid) (providerName model : String) :
    AskTracer :=
  let t : AskTracer := { question := scrub sur question, model }
  if configured then
    guarded (openTrace sur t.question orgId userId providerName) (fun t => { t with root := false }) t
  else t

/-- The end of the retrieval's span in `sources`. -/
def endRetrieval (sources : List Source) (stats : Option RetrievalStats) : Block := do
  call sur (.updateRetrieval (scrubSources sur sources) stats)
  call sur .endRetrieval
  assign fun t => { t with retrieval := false }

/-- `sources`. -/
def sources (sources : List Source) (stats : Option RetrievalStats) (t : AskTracer) : AskTracer :=
  if t.root then
    guarded (do
      ifThen t.retrieval (endRetrieval sur sources stats)
      call sur (.startGeneration t.model t.question)
      assign fun t => { t with gen := true }) id t
  else t

/-- `token`. -/
def token (text : String) (t : AskTracer) : AskTracer := { t with answer := t.answer ++ [text] }

/-- `done`. -/
def done (inputTokens outputTokens : Nat) (costUsd : ℚ≥0) (t : AskTracer) : AskTracer :=
  if t.root && t.gen then
    guarded (call sur (.updateGeneration (scrub sur (String.join t.answer)) inputTokens outputTokens costUsd))
      id t
  else t

/-- The ends of the child spans in `finish`. -/
def endChildren (retrieval gen : Bool) : Block := do
  ifThen retrieval (call sur .endRetrieval)
  ifThen gen (call sur .endGeneration)

/-- What `finish` does with the root span. -/
def endRoot (question : String) (answer : List String) (error : Option String) : Block := do
  let output := error.getD (scrub sur (String.join answer))
  call sur (.setTraceIo question output)
  match error with
  | some error => call sur (.updateRoot (some "ERROR") (some error) error)
  | none => call sur (.updateRoot none none output)
  call sur .endRoot

/-- `finish`. -/
def finish (error : Option String) (t : AskTracer) : AskTracer :=
  if t.root then
    guarded (do
      endChildren sur t.retrieval t.gen
      endRoot sur t.question t.answer error) id t
  else t

/-- A call of one of the methods. -/
inductive Method where
  | sources (sources : List Source) (stats : Option RetrievalStats)
  | token (text : String)
  | done (inputTokens outputTokens : Nat) (costUsd : ℚ≥0)
  | finish (error : Option String)

def step (t : AskTracer) : Method → AskTracer
  | .sources ss stats => sources sur ss stats t
  | .token text => token text t
  | .done inputTokens outputTokens costUsd => done sur inputTokens outputTokens costUsd t
  | .finish error => finish sur error t

/-- `trace_error` of `answer_stream`. -/
def traceError (reference exc : String) : String := s!"answer generation failed [ref={reference}]: {exc}"

end AskTracer

end KnowledgeDesk
