import KnowledgeDesk.Config

/-!
# Chunking

`chunking.chunk_text`: a fixed window over the stripped text, moved by `size - overlap`.
-/

namespace KnowledgeDesk

open PyText

/-- The loop of `chunk_text` from the window at `start` on. The fuel is the number of windows left at
most; a step is at least one character, so the length of the text is enough. -/
def chunkWindows (text : List Char) (size step : Nat) : Nat → Nat → List (List Char)
  | 0, _ => []
  | fuel + 1, start =>
    if text.length ≤ start then []
    else
      let piece := strip ((text.drop start).take size)
      let rest := if text.length ≤ start + size then [] else
        chunkWindows text size step fuel (start + step)
      if piece.isEmpty then rest else piece :: rest

/-- `chunk_text`. -/
def chunkText (env : Env) (text : String) (size overlap : Option Int := none) :
    Except Err (List String) :=
  let size := match size with
    | none => env.settings.chunkSize
    | some n => if n = 0 then env.settings.chunkSize else n
  let overlap := overlap.getD env.settings.chunkOverlap
  if size ≤ 0 then .error (.valueError "chunk size must be positive")
  else if size ≤ overlap then .error (.valueError "overlap must be smaller than size")
  else
    let text := strip text.toList
    .ok ((chunkWindows text size.toNat (size - overlap).toNat text.length 0).map String.ofList)

end KnowledgeDesk
