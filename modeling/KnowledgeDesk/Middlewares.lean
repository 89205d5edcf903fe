import KnowledgeDesk.Lib.Interactive
import KnowledgeDesk.Lib.PyText
import KnowledgeDesk.Lib.Utf8

/-!
# What stands between the server and the application

`bodylimit.py` and `securityheaders.py`, around any ASGI application: a program that receives the messages
of its request and sends those of its response.
-/

namespace KnowledgeDesk

open Interactive

/-- The bytes of a body. -/
abbrev Bytes := List UInt8

/-- The names and values of headers. -/
abbrev Headers := List (String × String)

/-- What the application is told of a request. -/
structure AsgiScope where
  type : String
  path : String
  headers : Headers

/-- A message of the server to the application. -/
inductive Received where
  /-- `http.request`. -/
  | request (body : Bytes) (moreBody : Bool)
  /-- `http.disconnect`. -/
  | disconnect
  | other (type : String)
  deriving DecidableEq

/-- A message of the application to the server. -/
inductive Sent where
  /-- `http.response.start`. -/
  | start (status : Nat) (headers : Headers)
  /-- `http.response.body`. -/
  | body (body : Bytes) (moreBody : Bool)
  | other (type : String)
  deriving DecidableEq

/-- An application, called with a scope. -/
abbrev AsgiApp (σ : Type) := Program Received Sent σ

/-- `Headers(scope=scope).get(name)`. -/
def AsgiScope.header (scope : AsgiScope) (name : String) : Option String := scope.headers.lookup name

/-! ## `int` of a text -/

/-- Digits, with single underscores between them. -/
def isDecimal : List Char → Bool
  | [] => false
  | [c] => PyText.isDigit c
  | c :: '_' :: s => PyText.isDigit c && isDecimal s
  | c :: s => PyText.isDigit c && isDecimal s

/-- `int(s)` of digits and underscores; none where it raises. -/
def decimal? (s : List Char) : Option Nat :=
  if isDecimal s then PyText.int? (s.filter (· ≠ '_')) else none

/-- `int(s)`; none where it raises `ValueError`. -/
def pyInt? (s : String) : Option Int :=
  match PyText.strip s.toList with
  | '-' :: s => (decimal? s).map fun n => -n
  | '+' :: s => (decimal? s).map (↑)
  | s => (decimal? s).map (↑)

/-! ## `bodylimit.py` -/

namespace BodySizeLimit

variable {σ : Type} (maxBytes : Int)

/-- The body of `JSONResponse(content={"detail": "request body too large"})`. -/
def tooLarge : Bytes := Utf8.encode "\x7b\"detail\":\"request body too large\"\x7d".toList

/-- The messages `_reject` sends. -/
def reject : List Sent :=
  [.start 413 [("content-length", toString tooLarge.length), ("content-type", "application/json")],
    .body tooLarge false]

/-- The declared length is over the limit. A header that is no number declares nothing. -/
def declaresTooLarge (scope : AsgiScope) : Bool :=
  (scope.header "content-length").any fun declared =>
    (pyInt? declared).any fun n => n > maxBytes

/-- `counting_receive`: what has been received with this message, and what is handed on. -/
def countingReceive (received : Nat) : Received → Nat × Received
  | .request body moreBody =>
    let received := received + body.length
    if received > maxBytes then (received, .disconnect) else (received, .request body moreBody)
  | m => (received, m)

/-- Where the middleware stands. -/
inductive State (σ : Type) where
  /-- The scope is none of a request. -/
  | passing (s : σ)
  | rejecting (left : List Sent)
  | counting (s : σ) (received : Nat)

/-- `__call__`, up to its first message. -/
def call (scope : AsgiScope) (s : σ) : State σ :=
  if scope.type ≠ "http" then .passing s
  else if declaresTooLarge maxBytes scope then .rejecting reject
  else .counting s 0

/-- The application within the limit. -/
def program (app : AsgiApp σ) : AsgiApp (State σ)
  | .passing s => match app s with
    | .done => .done
    | .receive k => .receive fun m => .passing (k m)
    | .send m s => .send m (.passing s)
  | .rejecting [] => .done
  | .rejecting (m :: left) => .send m (.rejecting left)
  | .counting s received => match app s with
    | .done => .done
    | .receive k => .receive fun m =>
      let r := countingReceive maxBytes received m
      .counting (k r.2) r.1
    | .send m s => .send m (.counting s received)

end BodySizeLimit

/-! ## `securityheaders.py` -/

namespace SecurityHeaders

/-- `CSP`. -/
def csp : String := "; ".intercalate
  ["default-src 'self'", "script-src 'self'", "style-src 'self' 'unsafe-inline'", "img-src 'self' data:",
    "font-src 'self'", "connect-src 'self'", "object-src 'none'", "base-uri 'self'", "frame-ancestors 'none'",
    "form-action 'self'"]

/-- `HEADERS`. -/
def headers : Headers :=
  [("content-security-policy", csp), ("x-content-type-options", "nosniff"), ("x-frame-options", "DENY"),
    ("referrer-policy", "no-referrer"),
    ("strict-transport-security", "max-age=31536000; includeSubDomains")]

/-- `_CSP_EXEMPT`. -/
def cspExempt : List String := ["/docs", "/redoc", "/docs/oauth2-redirect"]

/-- `MutableHeaders.setdefault`. -/
def setdefault (hs : Headers) (name value : String) : Headers :=
  if (hs.lookup name).isSome then hs else hs ++ [(name, value)]

/-- `send_with_headers`, up to `send`. -/
def withHeaders (scope : AsgiScope) : Sent → Sent
  | .start status hs =>
    .start status <| headers.foldl (fun hs h =>
      if h.1 = "content-security-policy" ∧ scope.path ∈ cspExempt then hs else setdefault hs h.1 h.2) hs
  | m => m

/-- The application behind the middleware. -/
def program {σ : Type} (scope : AsgiScope) (app : AsgiApp σ) : AsgiApp σ := fun s =>
  match app s with
  | .send m s => .send (if scope.type ≠ "http" then m else withHeaders scope m) s
  | action => action

end SecurityHeaders

/-- The two around the application: what `main.py` adds last comes first. -/
def stack {σ : Type} (maxBytes : Int) (scope : AsgiScope) (app : AsgiApp σ) : AsgiApp (BodySizeLimit.State σ) :=
  SecurityHeaders.program scope (BodySizeLimit.program maxBytes app)

end KnowledgeDesk
