import KnowledgeDesk.Assistant
import KnowledgeDesk.Lib.Framing
import KnowledgeDesk.Lib.Transaction
import KnowledgeDesk.Lib.Utf8

/-!
# The ask stream on the wire

`main.ask` writes each event of `answer_stream` as a frame of its own, `json.dumps` of it after `data: `,
and `askStream` in `api.ts` takes the frames out of the reads of the response's body. The text of a float
and the browser's `JSON.parse` and `TextDecoder` are parameters.
-/

namespace KnowledgeDesk

/-- What `json.dumps` is given. -/
inductive Json where
  | str (s : String)
  | int (n : Nat)
  | float (x : ℚ≥0)
  | list (items : List Json)
  | dict (items : List (String × Json))

namespace Json

/-- `'\\u{0:04x}'.format(n)`. -/
def unicodeEscape (n : Nat) : List Char :=
  ['\\', 'u', Nat.digitChar (n / 4096 % 16), Nat.digitChar (n / 256 % 16), Nat.digitChar (n / 16 % 16),
    Nat.digitChar (n % 16)]

/-- The replacement of a character, with `ensure_ascii`. -/
def escapeChar (c : Char) : List Char :=
  if c = '\\' then ['\\', '\\']
  else if c = '"' then ['\\', '"']
  else if c = '\n' then ['\\', 'n']
  else if c = '\r' then ['\\', 'r']
  else if c = '\t' then ['\\', 't']
  else if c = Char.ofNat 0x0c then ['\\', 'f']
  else if c = Char.ofNat 0x08 then ['\\', 'b']
  else if ' ' ≤ c ∧ c ≤ '~' then [c]
  else if c.toNat < 0x10000 then unicodeEscape c.toNat
  else
    -- a surrogate pair
    unicodeEscape (0xd800 + (c.toNat - 0x10000) / 1024 % 1024) ++ unicodeEscape (0xdc00 + (c.toNat - 0x10000) % 1024)

/-- `json.dumps` of a string. -/
def dumpsStr (s : String) : List Char := '"' :: (s.toList.flatMap escapeChar ++ ['"'])

variable (floatRepr : ℚ≥0 → List Char)

mutual

/-- `json.dumps`. -/
def dumps : Json → List Char
  | .str s => dumpsStr s
  | .int n => (toString n).toList
  | .float x => floatRepr x
  | .list items => '[' :: ([',', ' '].intercalate (dumpsItems items) ++ [']'])
  | .dict items => '\x7b' :: ([',', ' '].intercalate (dumpsFields items) ++ ['\x7d'])

def dumpsItems : List Json → List (List Char)
  | [] => []
  | item :: items => dumps item :: dumpsItems items

def dumpsFields : List (String × Json) → List (List Char)
  | [] => []
  | (key, value) :: items => (dumpsStr key ++ [':', ' '] ++ dumps value) :: dumpsFields items

end

end Json

/-- The event dict of a frame. -/
def Frame.event : Frame → Json
  | .meta answerId provider =>
    .dict [("type", .str "meta"), ("answer_id", .str (toString answerId)), ("provider", .str provider)]
  | .sources entries =>
    .dict [("type", .str "sources"), ("sources", .list (entries.map fun s =>
      .dict [("document_id", .str s.documentId), ("ordinal", .int s.ordinal), ("path", .str s.path)]))]
  | .token text => .dict [("type", .str "token"), ("text", .str text)]
  | .done inputTokens outputTokens costUsd warnings =>
    .dict [("type", .str "done"),
      ("usage", .dict [("input_tokens", .int inputTokens), ("output_tokens", .int outputTokens)]),
      ("cost_usd", .float costUsd),
      ("warnings", .list (warnings.map fun w => .dict [("code", .str w.code), ("detail", .str w.detail)]))]
  | .error message => .dict [("type", .str "error"), ("message", .str message)]

namespace AskWire

/-- The line of an event: `data: {json.dumps(event)}`. -/
def dataLine (floatRepr : ℚ≥0 → List Char) (event : Json) : List Char :=
  "data: ".toList ++ event.dumps floatRepr

/-- A line of a comment frame. -/
structure CommentLine where
  text : List Char
  oneLine : '\n' ∉ text

def CommentLine.chars (l : CommentLine) : List Char := ':' :: l.text

/-- What is on the wire: the frame of an event, or a comment. -/
inductive WireFrame where
  | event (frame : Frame)
  | comment (first : CommentLine) (more : List CommentLine)

namespace WireFrame

/-- The lines of a frame, without the blank line that ends it. -/
def body (floatRepr : ℚ≥0 → List Char) : WireFrame → List Char
  | .event frame => dataLine floatRepr frame.event
  | .comment first more => first.chars ++ more.flatMap fun l => '\n' :: l.chars

end WireFrame

/-- The bytes of the response's body: every frame ends with a blank line. -/
def wire (floatRepr : ℚ≥0 → List Char) (frames : List WireFrame) : List UInt8 :=
  Utf8.encode (frames.flatMap fun frame => frame.body floatRepr ++ ['\n', '\n'])

/-- The response to `POST /ask`: its status, and the reads its body comes in. -/
structure Response where
  status : Nat
  body : Option (List (List UInt8))

/-- `resp.ok`. -/
def Response.ok (resp : Response) : Bool := 200 ≤ resp.status && resp.status ≤ 299

/-- What `askStream` throws. -/
inductive JsError where
  | apiError (status : Nat) (message : String)
  | syntaxError
  deriving DecidableEq

/-- A step of `askStream`. The state is the list of the events that `onEvent` has been called with. -/
abbrev Js (α : Type) := Proc (List Json) JsError α

variable (parse : List Char → Option Json)

/-- `onEvent(event)`. -/
def onEvent (event : Json) : Js Unit := fun seen => (.ok (), seen ++ [event])

/-- `JSON.parse(text)`. -/
def jsonParse (text : List Char) : Js Json :=
  match parse text with
  | some event => pure event
  | none => Proc.raise .syntaxError

/-- The body of the loop over the complete parts. -/
def onPart (part : List Char) : Js Unit :=
  match (Framing.split ['\n'] part).find? (fun l => "data: ".toList.isPrefixOf l) with
  | some line => do
    let event ← jsonParse parse (line.drop 6)
    onEvent event
  | none => pure ()

/-- The loop over the reads. -/
def readLoop (decoder : Utf8.Decoder) : decoder.State → List Char → List (List UInt8) → Js Unit
  | _, _, [] => pure ()
  | st, buffer, value :: reads => do
    let text := decoder.decode st value
    let parts := Framing.split ['\n', '\n'] (buffer ++ text.1)
    Proc.forEach parts.dropLast (onPart parse)
    readLoop decoder text.2 (Framing.rest parts) reads

/-- `askStream`. -/
def askStream (decoder : Utf8.Decoder) (resp : Response) : Js Unit :=
  if resp.status = 429 then Proc.raise (.apiError 429 "rate limit exceeded, please slow down")
  else match resp.ok, resp.body with
    | true, some reads => readLoop parse decoder decoder.start [] reads
    | _, _ => Proc.raise (.apiError resp.status "failed to start answer stream")

end AskWire

end KnowledgeDesk
