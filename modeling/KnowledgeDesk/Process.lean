import KnowledgeDesk.Api
import KnowledgeDesk.AskStreams
import KnowledgeDesk.Service

/-!
# The process

Any number of connections, each of which carries one request: its handler goes on step by step, and a
stream it has answered with goes on after it, operation by operation, as one of the ask streams. The
workers drain the queue meanwhile, and the drain purges sessions.
-/

namespace KnowledgeDesk

/-- Where a connection stands. -/
inductive Conn where
  | idle
  | handling (h : Handler HttpResponse)
  | streaming (stream : AskStream)
  | closed

/-- The stream on a connection. -/
def Conn.stream? : Conn → Option AskStream
  | .streaming stream => some stream
  | _ => none

/-- What `answer_stream` is called with on a connection. -/
def Deployment.ask (deployment : Deployment) (env : Env) (conn : Nat) (question : String) (k : Nat) :
    Assistant.Request where
  env := env
  tracing := deployment.tracing
  embedQuery question := (deployment.embedQuery question).mapError Err.text
  provider := deployment.provider conn
  question := question
  k := k

/-- The process: its store, its workers, its connections, and what has happened to the streams. -/
structure Process where
  store : Store
  workers : Nat → Phase
  conns : Nat → Conn
  log : List AskEntry

namespace Process

/-- What can happen. -/
inductive Label where
  | request (conn : Nat) (req : HttpRequest)
  /-- The handler of a connection takes its next step, or its response leaves. -/
  | advance (conn : Nat) (tick : Input)
  /-- The connection breaks off. -/
  | hangUp (conn : Nat)
  /-- A stream performs an operation, or its consumer asks for the next frame or closes it. -/
  | stream (l : AskStreams.Label)
  /-- A step of a worker. -/
  | work (l : Pipeline.Label)
  | purgeExpiredSessions (now : Time)

/-- A step that a stream takes once it is there. -/
def isOfStream : AskStreams.Label → Bool
  | .perform .. | .resume .. => true
  | .ask .. => false

/-- The pipeline's steps that a worker takes. -/
def isWork : Pipeline.Label → Bool
  | .claim .. | .read .. | .embed .. | .write .. | .succeed .. | .interrupt .. | .fail .. | .failDocument ..
  | .crash .. => true
  | .sync .. | .enqueue .. | .abandon .. | .updateAcl .. | .deleteDocument .. => false

variable (env : Env) (deployment : Deployment)

/-- A connection stands elsewhere. -/
def goto (s : Process) (conn : Nat) (c : Conn) : Process := { s with conns := Function.update s.conns conn c }

/-- A transaction on the database, unless it aborts. -/
def commit (s : Process) (tx : Tx Db Err Unit) : Process :=
  match tx s.store.db with
  | .ok ((), db) => { s with store := { s.store with db } }
  | .error _ => s

/-- The pipeline the workers see. -/
def pipeline (s : Process) : Pipeline := ⟨s.store.db, s.store.nextId, s.workers, fun _ => []⟩

/-- The ask streams on the connections. -/
def streams (s : Process) : AskStreams := ⟨s.store.db, s.store.nextId, fun conn => (s.conns conn).stream?, s.log⟩

/-- The process with its ask streams so. -/
def withStreams (s : Process) (a : AskStreams) : Process :=
  { s with
    store := { s.store with db := a.db, nextId := a.nextId }
    conns := fun conn => ((a.streams conn).map Conn.streaming).getD (s.conns conn)
    log := a.log }

/-- A response leaves, and a stream is called for. -/
def respond (s : Process) (conn : Nat) : Except HttpError HttpResponse → Process
  | .ok response => match response.body with
    | .stream ctx question k =>
      s.withStreams (AskStreams.step env s.streams (.ask conn ctx (deployment.ask env conn question k)))
    | _ => s.goto conn .closed
  | .error _ => s.goto conn .closed

/-- One step of the process. -/
def step (s : Process) : Label → Process
  | .request conn req => match s.conns conn with
    | .idle => s.goto conn (.handling (Api.handle env deployment req))
    | _ => s
  | .advance conn tick => match s.conns conn with
    | .handling (.step f k) => { s with store := f tick s.store }.goto conn (.handling (k tick s.store))
    | .handling (.done r) => s.respond env deployment conn r
    | _ => s
  | .hangUp conn => match s.conns conn with
    -- the consumer closes the stream, when it is at a frame
    | .streaming _ => s
    | _ => s.goto conn .closed
  | .stream l => if isOfStream l then s.withStreams (AskStreams.step env s.streams l) else s
  | .work l =>
    if isWork l then
      let p := Pipeline.step env s.pipeline l
      { s with store := { s.store with db := p.db, nextId := p.nextId }, workers := p.workers }
    else s
  | .purgeExpiredSessions now =>
    s.commit fun db => (purgeExpiredSessions now db).map fun r => ((), r.2)

/-- The step that the handler of a connection takes, if it takes one. -/
def turn (conn : Nat) (s : Process) (l : Label) : Option (Resume.Taken Input Store) :=
  match l, s.conns conn with
  | .advance i input, .handling (.step _ _) =>
    if i = conn then some ⟨input, s.store, (step env deployment s l).store⟩ else none
  | _, _ => none

/-- The steps it takes in a run. -/
def turns (conn : Nat) : Process → List Label → List (Resume.Taken Input Store)
  | _, [] => []
  | s, l :: ls => (turn env deployment conn s l).toList ++ turns conn (step env deployment s l) ls

/-- The process at its first start. -/
def init : Process := ⟨⟨{}, 0, .empty, .empty, 0⟩, fun _ => .idle, fun _ => .idle, []⟩

/-- A state some run leads to. -/
def Reachable (s : Process) : Prop := ∃ ls, s = Runs.run (step env deployment) init ls

end Process

end KnowledgeDesk
