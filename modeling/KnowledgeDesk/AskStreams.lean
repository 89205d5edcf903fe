import KnowledgeDesk.Assistant

/-!
# Many ask streams

The streams of a deployment, of any callers of any orgs, interleaved operation by operation: each
database call of a stream is a step of its own, between a caller's two signals anything can happen, and
so it can while a provider answers. A log keeps what happened to which stream and when.
-/

namespace KnowledgeDesk

open Assistant

/-- A stream: its caller, what it was called with, whether `next` has been called, and what is left. -/
structure AskStream where
  ctx : AuthContext
  req : Request
  started : Bool
  rest : AskGen

/-- Nothing is left of the stream. -/
def AskStream.finished (s : AskStream) : Bool :=
  match s.rest with
  | .ret _ => true
  | _ => false

/-- An entry of the log. -/
structure AskEntry where
  stream : Nat
  now : Time
  event : AskEvent

structure AskStreams where
  db : Db
  nextId : Uuid
  streams : Nat → Option AskStream
  log : List AskEntry

namespace AskStreams

/-- What can happen. -/
inductive Label where
  /-- `answer_stream` is called. -/
  | ask (stream : Nat) (ctx : AuthContext) (req : Request)
  /-- The operation a stream has come to is performed. A database call raises the `fault`, if any. -/
  | perform (stream : Nat) (now : Time) (fault : Option Err) (reference : String)
  /-- The consumer of a stream asks for the next frame, or closes the stream. -/
  | resume (stream : Nat) (now : Time) (signal : Signal)

variable (env : Env)

/-- What an operation comes back with, and the database after it. A failed `audit.log` is swallowed. -/
def reply (ctx : AuthContext) (fresh : Uuid) (now : Time) (fault : Option Err) (reference : String) (db : Db) :
    (o : AskOp) → o.Reply × Db
  | .db call => match fault with
    | some e => (.error e, db)
    | none => call.run env ctx fresh now db
  | .audit action detail => match fault with
    | some _ => ((), db)
    | none => ((), (auditLog env ctx.orgId (some ctx.userId) action detail now db).2)
  | .receive _ => ((), db)
  | .tokenHex => (reference, db)

/-- The ids an operation has drawn: that of the answer it recorded. -/
def drawn : (o : AskOp) → o.Reply → Nat
  | .db (.recordAnswer ..), .ok _ => 1
  | _, _ => 0

/-- The state with the stream `i` as `s`. -/
def setStream (a : AskStreams) (i : Nat) (s : AskStream) : AskStreams :=
  { a with streams := fun j => if j = i then some s else a.streams j }

/-- The state after the event `e` of the stream `i`, which has `rest` left after it. -/
def advance (a : AskStreams) (i : Nat) (s : AskStream) (now : Time) (e : AskEvent) (rest : AskGen) :
    AskStreams :=
  { a.setStream i { s with started := true, rest } with log := a.log ++ [⟨i, now, e⟩] }

/-- One step of the machine. -/
def step (a : AskStreams) : Label → AskStreams
  | .ask i ctx req => match a.streams i with
    | some _ => a
    | none =>
      let req := { req with env }
      a.setStream i ⟨ctx, req, false, start req⟩
  | .perform i now fault reference => match a.streams i with
    | some s => match s.started, s.rest with
      | true, .perform o k =>
        let r := reply env s.ctx a.nextId now fault reference a.db o
        { a.advance i s now (.performed o r.1) (k r.1) with db := r.2, nextId := a.nextId + drawn o r.1 }
      | _, _ => a
    | none => a
  | .resume i now signal => match a.streams i with
    | some s => match s.started, s.rest with
      | true, .emit f k => a.advance i s now (.yielded f signal) (k signal)
      | true, _ => a
      | false, _ => match signal with
        | .next => a.setStream i { s with started := true }
        | .close => a.setStream i { s with started := true, rest := .ret (.error .generatorExit, {}) }
    | none => a

/-- A deployment in which nothing has been asked yet. -/
def fresh (db : Db) (nextId : Uuid) : AskStreams := ⟨db, nextId, fun _ => none, []⟩

/-- What has happened to a stream. -/
def history (a : AskStreams) (i : Nat) : List AskEvent :=
  (a.log.filter fun entry => entry.stream == i).map (·.event)

/-- The open answer after an event. -/
def opened (answer : Option Uuid) : AskEvent → Option Uuid
  | .performed (.db (.recordAnswer ..)) (.ok answerId) => some answerId
  | .performed (.db (.markBlocked _)) (.ok _) => none
  | .performed (.db (.finalizeAnswer ..)) (.ok _) => none
  | _ => answer

/-- The answer that has been recorded, and neither blocked nor finalized since. -/
def openAnswer (h : List AskEvent) : Option Uuid := h.foldl opened none

/-- The answer that a stream has open, and for whom. -/
def openAsk (a : AskStreams) (i : Nat) : Option (AuthContext × Uuid) :=
  (a.streams i).bind fun s => (openAnswer (a.history i)).map fun answerId => (s.ctx, answerId)

/-- The handler of a stream that runs alone, under a schedule that says of each of its operations when it is
performed and whether its database call raises. -/
def alone (ctx : AuthContext) (fresh : Uuid) (reference : String) (schedule : Nat → Time × Option Err)
    (o : AskOp) (w : Nat × Db) : o.Reply × (Nat × Db) :=
  let r := reply env ctx fresh (schedule w.1).1 (schedule w.1).2 reference w.2 o
  (r.1, w.1 + 1, r.2)

/-- The frames of a stream that runs alone and is fully consumed. -/
def framesAlone (ctx : AuthContext) (fresh : Uuid) (reference : String) (schedule : Nat → Time × Option Err)
    (req : Request) (db : Db) : List Frame :=
  ((start req).exec (alone env ctx fresh reference schedule) (0, db)).1

end AskStreams

end KnowledgeDesk
