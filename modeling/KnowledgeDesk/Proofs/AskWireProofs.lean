import KnowledgeDesk.AskWire

/-!
# The wire of the ask stream

`json.dumps` writes no newline, so the frame of an event is one line and its blank line is the only one.
The reader therefore finds the frames however the bytes are cut.
-/

namespace KnowledgeDesk.Proofs

open AskWire

/-! ## The frames have no blank line -/

theorem newline_notMem_unicodeEscape (n : Nat) : '\n' ∉ Json.unicodeEscape n := by
  have hsixteen : ∀ k < 16, '\n' ≠ Nat.digitChar k := by decide
  have hdigit : ∀ k, '\n' ≠ Nat.digitChar (k % 16) := fun k => hsixteen _ (Nat.mod_lt k (by decide))
  simp [Json.unicodeEscape, hdigit]

theorem newline_notMem_escapeChar (c : Char) : '\n' ∉ Json.escapeChar c := by
  unfold Json.escapeChar
  by_cases hn : c = '\n'
  · subst hn
    decide
  have hc : '\n' ∉ [c] := fun h => hn (List.mem_singleton.1 h).symm
  split_ifs
  all_goals first
    | decide
    | exact hc
    | exact newline_notMem_unicodeEscape _
    | exact fun h => (List.mem_append.1 h).elim (newline_notMem_unicodeEscape _) (newline_notMem_unicodeEscape _)

theorem newline_notMem_dumpsStr (s : String) : '\n' ∉ Json.dumpsStr s := by
  intro h
  rcases List.mem_cons.1 h with h | h
  · exact absurd h (by decide)
  · rcases List.mem_append.1 h with h | h
    · obtain ⟨c, -, hc⟩ := List.mem_flatMap.1 h
      exact newline_notMem_escapeChar c hc
    · exact absurd h (by decide)

/-- Joining texts without a newline by a separator without one gives one without one. -/
theorem newline_notMem_intercalate {ls : List (List Char)} (h : ∀ l ∈ ls, '\n' ∉ l) :
    '\n' ∉ [',', ' '].intercalate ls := by
  induction ls with
  | nil => exact List.not_mem_nil
  | cons l ls ih =>
    cases ls with
    | nil =>
      rw [List.intercalate_singleton]
      exact h l List.mem_cons_self
    | cons l' ls =>
      have hrest := ih fun x hx => h x (List.mem_cons_of_mem l hx)
      rw [List.intercalate_cons_cons]
      intro hmem
      rcases List.mem_append.1 hmem with hmem | hmem
      · rcases List.mem_append.1 hmem with hmem | hmem
        · exact h l List.mem_cons_self hmem
        · exact absurd hmem (by decide)
      · exact hrest hmem

/-- `float.__repr__` prints on one line. -/
def OneLine (floatRepr : ℚ≥0 → List Char) : Prop := ∀ x, '\n' ∉ floatRepr x

variable {floatRepr : ℚ≥0 → List Char}

mutual

/-- `json.dumps` writes no newline. -/
theorem newline_notMem_dumps (hfloat : OneLine floatRepr) : ∀ j : Json, '\n' ∉ j.dumps floatRepr
  | .str s => newline_notMem_dumpsStr s
  | .int n => fun h => absurd (PyText.isDigit_toString h) (by decide)
  | .float x => hfloat x
  | .list items => by
    have hitems := newline_notMem_intercalate (newline_notMem_dumpsItems hfloat items)
    rw [Json.dumps]
    simp [hitems]
  | .dict items => by
    have hitems := newline_notMem_intercalate (newline_notMem_dumpsFields hfloat items)
    rw [Json.dumps]
    simp [hitems]

theorem newline_notMem_dumpsItems (hfloat : OneLine floatRepr) :
    ∀ (items : List Json), ∀ l ∈ Json.dumpsItems floatRepr items, '\n' ∉ l
  | [], _, h => absurd h List.not_mem_nil
  | item :: items, l, h => by
    rw [Json.dumpsItems, List.mem_cons] at h
    rcases h with rfl | h
    · exact newline_notMem_dumps hfloat item
    · exact newline_notMem_dumpsItems hfloat items l h

theorem newline_notMem_dumpsFields (hfloat : OneLine floatRepr) :
    ∀ (items : List (String × Json)), ∀ l ∈ Json.dumpsFields floatRepr items, '\n' ∉ l
  | [], _, h => absurd h List.not_mem_nil
  | (key, value) :: items, l, h => by
    rw [Json.dumpsFields, List.mem_cons] at h
    rcases h with rfl | h
    · have hvalue := newline_notMem_dumps hfloat value
      simp [newline_notMem_dumpsStr, hvalue]
    · exact newline_notMem_dumpsFields hfloat items l h

end

/-! ## The lines of a frame -/

/-- The lines of a frame before the blank one. -/
def frameLines (floatRepr : ℚ≥0 → List Char) : WireFrame → List (List Char)
  | .event frame => [dataLine floatRepr frame.event]
  | .comment first more => first.chars :: more.map CommentLine.chars

theorem body_ended (f : WireFrame) :
    f.body floatRepr ++ ['\n'] = (frameLines floatRepr f).flatMap fun l => l ++ ['\n'] := by
  cases f with
  | event frame => simp [WireFrame.body, frameLines]
  | comment first more =>
    have hmore : ∀ more : List CommentLine, (more.flatMap fun l => '\n' :: l.chars) ++ ['\n'] =
        '\n' :: (more.map CommentLine.chars).flatMap fun l => l ++ ['\n'] := by
      intro more
      induction more with
      | nil => rfl
      | cons l more ih =>
        rw [List.flatMap_cons, List.append_assoc, ih, List.map_cons, List.flatMap_cons]
        simp
    rw [WireFrame.body, frameLines, List.append_assoc, hmore, List.flatMap_cons]
    simp

/-- No line of a frame is empty or has a newline in it. -/
theorem frameLines_proper (hfloat : OneLine floatRepr) (f : WireFrame) :
    ∀ l ∈ frameLines floatRepr f, l ≠ [] ∧ '\n' ∉ l := by
  have hcomment : ∀ l : CommentLine, l.chars ≠ [] ∧ '\n' ∉ l.chars := by
    intro l
    refine ⟨List.cons_ne_nil _ _, fun h => ?_⟩
    rcases List.mem_cons.1 h with h | h
    · exact absurd h (by decide)
    · exact l.oneLine h
  intro l hl
  cases f with
  | event frame =>
    rw [frameLines, List.mem_singleton] at hl
    subst hl
    have hdata : '\n' ∉ "data: ".toList := by decide
    have hdumps := newline_notMem_dumps hfloat frame.event
    refine ⟨by simp [dataLine], fun h => ?_⟩
    exact (List.mem_append.1 h).elim hdata hdumps
  | comment first more =>
    rcases List.mem_cons.1 hl with rfl | hl
    · exact hcomment first
    · obtain ⟨l', -, rfl⟩ := List.mem_map.1 hl
      exact hcomment l'

/-- The blank line of a frame is the first one. -/
theorem body_framed (hfloat : OneLine floatRepr) (f : WireFrame) :
    Framing.cut? ['\n', '\n'] (f.body floatRepr ++ ['\n', '\n'].dropLast) = none := by
  rw [show ['\n', '\n'].dropLast = ['\n'] from rfl, body_ended]
  exact Framing.cut?_lines (frameLines_proper hfloat f)

theorem split_body (hfloat : OneLine floatRepr) (f : WireFrame) :
    Framing.split ['\n'] (f.body floatRepr) = frameLines floatRepr f := by
  have hlines : ∀ l ∈ frameLines floatRepr f, Framing.cut? ['\n'] (l ++ ['\n'].dropLast) = none := by
    intro l hl
    rw [List.dropLast_singleton, List.append_nil]
    exact Framing.cut?_eq_none (List.mem_singleton_self _) (frameLines_proper hfloat f l hl).2
  have hsplit := Framing.split_frames (List.cons_ne_nil '\n' []) hlines
  rw [← body_ended, Framing.split_ended] at hsplit
  exact List.append_cancel_right hsplit

/-! ## The reader -/

variable {parse : List Char → Option Json} {decoder : Utf8.Decoder}

/-- The frame that the event of a frame on the wire comes from. -/
def frame? : WireFrame → Option Frame
  | .event frame => some frame
  | .comment .. => none

/-- The part of an event calls `onEvent` with it. -/
theorem onPart_event (hfloat : OneLine floatRepr) {frame : Frame}
    (hparse : parse (frame.event.dumps floatRepr) = some frame.event) (seen : List Json) :
    onPart parse ((WireFrame.event frame).body floatRepr) seen = (.ok (), seen ++ [frame.event]) := by
  have hline : (Framing.split ['\n'] ((WireFrame.event frame).body floatRepr)).find?
      (fun l => "data: ".toList.isPrefixOf l) = some (dataLine floatRepr frame.event) := by
    rw [split_body hfloat, frameLines, List.find?_cons_of_pos]
    rw [List.isPrefixOf_iff_prefix]
    exact List.prefix_append _ _
  have hslice : (dataLine floatRepr frame.event).drop 6 = frame.event.dumps floatRepr :=
    List.drop_left' rfl
  rw [onPart, hline]
  show (jsonParse parse ((dataLine floatRepr frame.event).drop 6) >>= fun event => onEvent event) seen = _
  rw [hslice, jsonParse, hparse]
  rfl

/-- The part of a comment does nothing. -/
theorem onPart_comment (hfloat : OneLine floatRepr) (first : CommentLine) (more : List CommentLine)
    (seen : List Json) :
    onPart parse ((WireFrame.comment first more).body floatRepr) seen = (.ok (), seen) := by
  have hcolon : ∀ l : CommentLine, ¬ "data: ".toList.isPrefixOf l.chars = true := by
    intro l hl
    rw [List.isPrefixOf_iff_prefix] at hl
    obtain ⟨t, ht⟩ := hl
    exact absurd (List.cons.inj ht).1 (by decide)
  have hnone : (Framing.split ['\n'] ((WireFrame.comment first more).body floatRepr)).find?
      (fun l => "data: ".toList.isPrefixOf l) = none := by
    rw [split_body hfloat, List.find?_eq_none]
    intro l hl
    rcases List.mem_cons.1 hl with rfl | hl
    · exact hcolon first
    · obtain ⟨l', -, rfl⟩ := List.mem_map.1 hl
      exact hcolon l'
  rw [onPart, hnone]
  rfl

/-- The loop over the reads handles the parts that the texts complete. -/
theorem readLoop_eq (reads : List (List UInt8)) (st : decoder.State) (buffer : List Char) :
    readLoop parse decoder st buffer reads =
      Proc.forEach (Framing.feedAll ['\n', '\n'] buffer (decoder.texts st reads)).1 (onPart parse) := by
  induction reads generalizing st buffer with
  | nil => rfl
  | cons value reads ih =>
    rw [readLoop, Utf8.Decoder.texts, Framing.feedAll, Proc.forEach_append, ← ih]

/-- The frames of a stream, handled in turn. -/
theorem forEach_frames (hfloat : OneLine floatRepr) (frames : List WireFrame)
    (hparse : ∀ frame ∈ frames.filterMap frame?, parse (frame.event.dumps floatRepr) = some frame.event) :
    ∀ seen, Proc.forEach (frames.map (WireFrame.body floatRepr)) (onPart parse) seen =
      (.ok (), seen ++ (frames.filterMap frame?).map Frame.event) := by
  induction frames with
  | nil =>
    intro seen
    show (Except.ok (), seen) = (Except.ok (), seen ++ [])
    rw [List.append_nil]
  | cons f frames ih =>
    intro seen
    rw [List.map_cons, Proc.forEach_cons]
    cases f with
    | event frame =>
      have hcons : (WireFrame.event frame :: frames).filterMap frame? = frame :: frames.filterMap frame? := rfl
      rw [hcons] at hparse ⊢
      rw [Proc.bind_of_ok (onPart_event hfloat (hparse frame List.mem_cons_self) seen),
        ih (fun g hg => hparse g (List.mem_cons_of_mem frame hg)), List.map_cons, List.append_assoc,
        List.singleton_append]
    | comment first more =>
      have hcons : (WireFrame.comment first more :: frames).filterMap frame? = frames.filterMap frame? := rfl
      rw [hcons] at hparse ⊢
      rw [Proc.bind_of_ok (onPart_comment hfloat first more seen), ih hparse]

/-- A stream does not begin with a byte order mark. -/
theorem head?_wire (frames : List WireFrame) :
    (frames.flatMap fun f => f.body floatRepr ++ ['\n', '\n']).head? ≠ some '\uFEFF' := by
  cases frames with
  | nil => simp
  | cons f frames =>
    rw [List.flatMap_cons]
    cases f with
    | event frame =>
      intro h
      exact absurd (Option.some.inj h) (by decide)
    | comment first more =>
      intro h
      exact absurd (Option.some.inj h) (by decide)

/-- However the bytes of a stream are cut into reads, and whatever comments stand between its frames,
`askStream` calls `onEvent` with the events of the stream, in order. -/
theorem askStream_receives_the_events (floatRepr : ℚ≥0 → List Char) (parse : List Char → Option Json)
    (decoder : Utf8.Decoder) (frames : List WireFrame) (reads : List (List UInt8))
    (hfloat : OneLine floatRepr) (hdecoder : decoder.Reassembles)
    (hparse : ∀ frame ∈ frames.filterMap frame?, parse (frame.event.dumps floatRepr) = some frame.event)
    (hreads : reads.flatten = wire floatRepr frames) :
    askStream parse decoder ⟨200, some reads⟩ [] = (.ok (), (frames.filterMap frame?).map Frame.event) := by
  have htext := hdecoder _ reads (head?_wire frames) hreads
  have hbodies : (frames.flatMap fun f => f.body floatRepr ++ ['\n', '\n']) =
      (frames.map (WireFrame.body floatRepr)).flatMap fun body => body ++ ['\n', '\n'] := by
    rw [List.flatMap_map]
  have hframed : ∀ body ∈ frames.map (WireFrame.body floatRepr),
      Framing.cut? ['\n', '\n'] (body ++ ['\n', '\n'].dropLast) = none := by
    intro body hbody
    obtain ⟨f, -, rfl⟩ := List.mem_map.1 hbody
    exact body_framed hfloat f
  have hparts := Framing.feedAll_frames (List.cons_ne_nil '\n' ['\n']) hframed (htext.trans hbodies)
  show readLoop parse decoder decoder.start [] reads [] = _
  rw [readLoop_eq, hparts, forEach_frames hfloat frames hparse]
  rfl

/-- A parser of one text, which is all that a run needs. -/
def parseOne (event : Json) (text : List Char) : Option Json :=
  if text = event.dumps (fun _ => ['0', '.', '0']) then some event else none

/-- A token with an accent in it and a comment before it, one byte at a time. -/
theorem askStream_receives_a_token_byte_by_byte :
    askStream (parseOne (Frame.token "café").event) Utf8.stepwise
      ⟨200, some ((wire (fun _ => ['0', '.', '0'])
        [.comment ⟨[' ', 'k', 'é'], by decide⟩ [], .event (.token "café")]).map fun byte => [byte])⟩ [] =
      (.ok (), [(Frame.token "café").event]) := by
  have hfloat : OneLine fun _ => ['0', '.', '0'] := fun _ => show '\n' ∉ ['0', '.', '0'] by decide
  refine askStream_receives_the_events (fun _ => ['0', '.', '0']) _ Utf8.stepwise
    [.comment ⟨[' ', 'k', 'é'], by decide⟩ [], .event (.token "café")] _ hfloat
    Utf8.stepwise_reassembles (fun frame hframe => ?_) ?_
  · obtain rfl := List.mem_singleton.1 hframe
    exact if_pos rfl
  · rw [← List.flatMap_def, List.flatMap_singleton']

end KnowledgeDesk.Proofs
