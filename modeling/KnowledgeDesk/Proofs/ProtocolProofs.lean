import KnowledgeDesk.Proofs.BillingProofs

/-!
# The frames of a fully consumed stream

What `answer_stream` yields to a consumer who takes every frame, branch by branch, and when that follows
the grammar its docstring gives: the one way to leave it is a provider that raises after its usage event.
-/

namespace KnowledgeDesk.Proofs

open Assistant Providers Stmt

/-! ## The grammar -/

/-- A frame that ends a stream. -/
def isTerminal : Frame → Bool
  | .done .. | .error _ => true
  | _ => false

/-- At most one `meta` frame, at most one `sources` frame, tokens, and one `done` or `error` frame, which
is an `error` frame if there is no `meta` frame, and then the only one. -/
inductive Protocol : List Frame → Prop where
  | failed (message : String) : Protocol [.error message]
  | opened (answerId : Uuid) (provider : String) (sources : Option (List Source)) (texts : List String)
      (last : Frame) (h : isTerminal last = true) :
      Protocol (.meta answerId provider ::
        ((sources.map Frame.sources).toList ++ (texts.map Frame.token ++ [last])))

theorem protocol_plain (answerId : Uuid) (provider : String) (texts : List String) {last : Frame}
    (h : isTerminal last = true) :
    Protocol (.meta answerId provider :: (texts.map Frame.token ++ [last])) :=
  .opened answerId provider none texts last h

theorem protocol_sources (answerId : Uuid) (provider : String) (sources : List Source) (texts : List String)
    {last : Frame} (h : isTerminal last = true) :
    Protocol (.meta answerId provider :: .sources sources :: (texts.map Frame.token ++ [last])) :=
  .opened answerId provider (some sources) texts last h

/-- Exactly one frame is terminal. -/
theorem Protocol.terminal {frames : List Frame} (h : Protocol frames) :
    (frames.filter isTerminal).length = 1 := by
  have htexts : ∀ texts : List String, (texts.map Frame.token).filter isTerminal = [] := by
    intro texts
    rw [List.filter_eq_nil_iff]
    intro f hf
    obtain ⟨text, -, rfl⟩ := List.mem_map.1 hf
    exact Bool.false_ne_true
  cases h with
  | failed message => rfl
  | opened answerId provider sources texts last h =>
    rw [List.filter_cons_of_neg Bool.false_ne_true, List.filter_append, List.filter_append, htexts]
    have hlast : [last].filter isTerminal = [last] := by simp [h]
    rw [hlast]
    cases sources with
    | none => rfl
    | some sources => rfl

/-! ## What the operations come back with -/

/-- The state of the limits, what retrieval finds, and what is drawn. -/
structure Outcomes where
  spend : ℚ≥0
  questions : Nat
  platform : ℚ≥0
  retrieved : Except Err (List Context)
  stats : RetrievalStats
  answerId : Uuid
  reference : String

/-- The reply to an operation. No other database call than the retrieval raises. -/
def Outcomes.reply (out : Outcomes) : (o : AskOp) → o.Reply
  | .db .spendLast24h => .ok out.spend
  | .db .questionsThisMonth => .ok out.questions
  | .db .platformSpendToday => .ok out.platform
  | .db (.recordAnswer ..) => .ok out.answerId
  | .db (.markBlocked _) => .ok ()
  | .db (.search ..) => out.retrieved
  | .db .retrievalStats => .ok out.stats
  | .db (.finalizeAnswer ..) => .ok ()
  | .audit .. => ()
  | .receive _ => ()
  | .tokenHex => out.reference

/-- What the consumer of the whole stream gets. -/
def framesOf (req : Request) (out : Outcomes) : List Frame :=
  ((start req).exec (fun o u => (out.reply o, u)) ()).1

/-- Why the request is over a limit, if it is. -/
def limitReason (env : Env) (out : Outcomes) : Option String :=
  if env.settings.dailyBudgetUsd ≤ out.spend then some "daily budget exhausted"
  else if env.settings.monthlyQuestionCap ≤ out.questions then some "monthly question limit reached"
  else if env.settings.platformDailyBudgetUsd ≤ out.platform then some "service daily budget exhausted"
  else none

/-- What `retrieval.search` comes back with. -/
def retrievedBy (req : Request) (out : Outcomes) : Except Exc (List Context) :=
  match req.embedQuery req.question with
  | .error exc => .error (.other exc)
  | .ok _ => match out.retrieved with
    | .ok contexts => .ok contexts
    | .error e => .error (.db e)

section Runs

variable (req : Request) (out : Outcomes)

/-- The statement yields `vs` to a consumer who takes everything, and ends with `r` and `l'`. -/
abbrev Shows {α : Type} (out : Outcomes) (m : Ask α) (l : AskLocals) (vs : List Frame) (r : Except Exc α)
    (l' : AskLocals) : Prop :=
  Plays (fun o (u : Unit) => (out.reply o, u)) m l () vs r l' ()

theorem shows_callDb (call : AskCall) {a : call.Ret} {l : AskLocals} (h : out.reply (.db call) = .ok a) :
    Shows out (callDb call) l [] (.ok a) l := by
  refine Plays.bind (plays_perform (AskOp.db call)) ?_
  rw [h]
  exact plays_pure a

theorem shows_limitBlock (l : AskLocals) :
    Shows out (limitBlock req) l [] (.ok (limitReason req.env out)) l := by
  refine Plays.bind (shows_callDb out .spendLast24h rfl) ?_
  unfold limitReason
  split
  · exact plays_pure _
  refine Plays.bind (shows_callDb out .questionsThisMonth rfl) ?_
  split
  · exact plays_pure _
  refine Plays.bind (shows_callDb out .platformSpendToday rfl) ?_
  split
  · exact plays_pure _
  · exact plays_pure _

theorem shows_recordAnswer (refused : Bool) (l : AskLocals) :
    Shows out (Assistant.recordAnswer req refused) l [] (.ok out.answerId)
      { l with answerId := some out.answerId } :=
  Plays.bind (shows_callDb out (.recordAnswer _ _ _) rfl)
    (Plays.bind (plays_assign fun l : AskLocals => { l with answerId := some out.answerId })
      (plays_pure out.answerId))

theorem shows_send (frame : Frame) (l : AskLocals) : Shows out (send frame) l [frame] (.ok ()) l := rfl

theorem shows_audit (action : String) (detail : List (String × DetailValue)) (l : AskLocals) :
    Shows out (Assistant.audit action detail) l [] (.ok ()) l := rfl

theorem shows_blocked (reason : String) (l : AskLocals) : ∃ message l',
    Shows out (blocked req reason) l [.meta out.answerId req.provider.name, .error message] (.ok ()) l' :=
  ⟨_, _, Plays.bind (shows_recordAnswer req out false l) (Plays.bind (shows_callDb out (.markBlocked _) rfl)
    (Plays.bind (shows_audit out _ _ _) (Plays.bind (shows_send out _ _) (shows_send out _ _))))⟩

theorem shows_search (l : AskLocals) :
    Shows out (Assistant.search req) l [] (retrievedBy req out) l := by
  unfold Assistant.search retrievedBy
  cases req.embedQuery req.question with
  | error exc => exact plays_raise _
  | ok embedding =>
    have hreply : out.reply (.db (.search embedding req.k)) = out.retrieved := rfl
    cases hr : out.retrieved with
    | ok contexts => exact shows_callDb out (.search _ _) hr
    | error e =>
      refine Plays.bind (plays_perform (AskOp.db (.search embedding req.k))) ?_
      rw [hreply, hr]
      exact plays_raise _

/-- A loop that sends a frame for each element. -/
theorem shows_forEach {ι : Type} {body : ι → Ask Unit} {frame : ι → Frame} {next : ι → AskLocals → AskLocals}
    (hbody : ∀ x l, Shows out (body x) l [frame x] (.ok ()) (next x l)) (xs : List ι) :
    ∀ l, ∃ l', Shows out (forEach xs body) l (xs.map frame) (.ok ()) l' := by
  induction xs with
  | nil => exact fun l => ⟨l, plays_pure ()⟩
  | cons x xs ih =>
    intro l
    obtain ⟨l', h⟩ := ih (next x l)
    exact ⟨l', Plays.bind (hbody x l) h⟩

theorem shows_refuse (l : AskLocals) : ∃ l', Shows out refuse l
    (refusalTokens.map Frame.token ++ [.done 0 0 0 []]) (.ok ()) l' := by
  obtain ⟨l', h⟩ := shows_forEach out (fun text l => shows_send out (.token text) l) refusalTokens l
  exact ⟨l', Plays.bind h (shows_send out _ _)⟩

theorem shows_passOn (text : String) (l : AskLocals) :
    Shows out (passOn text) l [.token text] (.ok ()) { l with streamed := l.streamed ++ [text] } :=
  Plays.bind (plays_assign fun l : AskLocals => { l with streamed := l.streamed ++ [text] })
    (shows_send out _ _)

theorem shows_forward_token (answerId : Uuid) (contexts : List Context) (text : String) (l : AskLocals) :
    Shows out (forward req.env answerId contexts (.token text)) l [.token text] (.ok ())
      { l with streamed := l.streamed ++ [text] } :=
  Plays.bind (plays_perform (AskOp.receive (.token text))) (shows_passOn out text l)

theorem shows_complete (answerId : Uuid) (contexts : List Context) (usage : Usage) (l : AskLocals) :
    ∃ warnings, Shows out (complete req.env answerId contexts usage) l
      [.done usage.inputTokens usage.outputTokens usage.costUsd warnings] (.ok ()) { l with billed := true } := by
  refine ⟨OutputChecks.checkAnswer req.env (String.join l.streamed).toList contexts, ?_⟩
  refine Plays.bind (shows_callDb out (.finalizeAnswer _ _ _) rfl) ?_
  refine Plays.bind (plays_assign fun l : AskLocals => { l with billed := true }) ?_
  refine Plays.bind plays_locals ?_
  have haudit : Shows out (if (OutputChecks.checkAnswer req.env (String.join l.streamed).toList contexts).isEmpty
      then pure () else Assistant.audit "answer.flagged" [("answer_id", .str (toString answerId)),
        ("codes", .str (",".intercalate
          ((OutputChecks.checkAnswer req.env (String.join l.streamed).toList contexts).map (·.code))))])
      { l with billed := true } [] (.ok ()) { l with billed := true } := by
    split
    · exact plays_pure ()
    · exact shows_audit out _ _ _
  exact Plays.bind haudit (shows_send out _ _)

theorem shows_forward_usage (answerId : Uuid) (contexts : List Context) (usage : Usage) (l : AskLocals) :
    ∃ warnings, Shows out (forward req.env answerId contexts (.usage usage)) l
      [.done usage.inputTokens usage.outputTokens usage.costUsd warnings] (.ok ())
      { l with billed := true } := by
  obtain ⟨warnings, h⟩ := shows_complete req out answerId contexts usage l
  exact ⟨warnings, Plays.bind (plays_perform (AskOp.receive (.usage usage))) h⟩

theorem shows_forged (contexts : List Context) (l : AskLocals) :
    Shows out (if countDefused contexts = 0 then pure () else
      Assistant.audit "retrieval.grammar_defused"
        [("answer_id", .str (toString out.answerId)), ("spans", .num (countDefused contexts))])
      l [] (.ok ()) l := by
  split
  · exact plays_pure ()
  · exact shows_audit out _ _ _

theorem shows_stats (l : AskLocals) :
    Shows out (if req.tracing then callDb .retrievalStats >>= fun _ => pure () else pure ()) l [] (.ok ()) l := by
  split
  · exact Plays.bind (shows_callDb out .retrievalStats rfl) (plays_pure ())
  · exact plays_pure ()

theorem shows_settle (l : AskLocals) : ∃ r, Shows out (settle req) l [] r l := by
  unfold settle
  refine ⟨.ok (), Plays.bind plays_locals ?_⟩
  cases l.answerId with
  | none => exact plays_pure ()
  | some answerId =>
    dsimp only
    by_cases hskip : (l.billed || l.streamed.isEmpty) = true
    · rw [if_pos hskip]
      exact plays_pure ()
    · rw [if_neg hskip]
      exact shows_callDb out (.finalizeAnswer _ _ _) rfl

/-- The frames of a stream whose `try` block runs to its end. -/
theorem framesOf_of_ok {vs : List Frame} {l' : AskLocals} (h : Shows out (attempt req) {} vs (.ok ()) l') :
    framesOf req out = vs := by
  obtain ⟨r, hr⟩ := shows_settle req out l'
  have hplays : Shows out (answerStream req) {} (vs ++ []) _ l' :=
    Plays.tryFinally (h.tryExcept_ok onFailure) hr
  rw [List.append_nil] at hplays
  exact congrArg Prod.fst hplays

/-- The frames of a stream whose `try` block raises. -/
theorem framesOf_of_error {vs : List Frame} {l' : AskLocals} {e : Exc} (he : e ≠ .generatorExit)
    (h : Shows out (attempt req) {} vs (.error e) l') :
    ∃ message, framesOf req out = vs ++ [.error message] := by
  obtain ⟨r, hr⟩ := shows_settle req out l'
  obtain ⟨k, hk, message, hshows⟩ : ∃ k, onFailure e = some k ∧ ∃ message,
      Shows out k l' [.error message] (.ok ()) l' := by
    have hhandler : Shows out (do
        let reference ← tokenHex
        send (.error (failureMessage reference)))
        l' _ (.ok ()) l' := Plays.bind (plays_perform AskOp.tokenHex) (shows_send out _ _)
    cases e with
    | generatorExit => exact absurd rfl he
    | db e => exact ⟨_, rfl, _, hhandler⟩
    | other repr => exact ⟨_, rfl, _, hhandler⟩
  have hplays : Shows out (answerStream req) {} ((vs ++ [.error message]) ++ []) _ l' :=
    Plays.tryFinally (Plays.tryExcept_error h hk hshows) hr
  rw [List.append_nil] at hplays
  exact ⟨message, congrArg Prod.fst hplays⟩

end Runs

/-! ## The providers of the repository -/

/-- They stream tokens, and then raise, or report a usage and perhaps raise after it. -/
theorem repositoryProvider_cases {provider : AnswerProvider} (h : RepositoryProvider provider)
    (question : String) (contexts : List Context) : ∃ texts : List String,
      (∃ exc, provider.stream question contexts = ⟨texts.map .token, some exc⟩) ∨
      ∃ usage raised, provider.stream question contexts = ⟨texts.map .token ++ [.usage usage], raised⟩ := by
  cases h with
  | mock nonce =>
    refine ⟨(PyText.split (mockAnswer contexts)).map fun word => .ofList (word ++ [' ']), .inr
      ⟨⟨(renderContext contexts nonce).length / 4 + question.length / 4, (mockAnswer contexts).length / 4, 0⟩,
        none, ?_⟩⟩
    rw [List.map_map]
    rfl
  | claude model maxTokens api nonce =>
    simp only [claudeAnswerProvider]
    generalize api _ = response
    refine ⟨response.texts, ?_⟩
    cases response.final with
    | error exc => exact .inl ⟨exc, rfl⟩
    | ok final => exact .inr ⟨_, _, rfl⟩

/-! ## When the grammar is followed -/

/-- The provider raises after its usage event. -/
def raisesAfterUsage (run : ProviderRun) : Bool := run.raised.isSome && !(usages run.events).isEmpty

/-- The provider is asked, and raises after its usage event. -/
def declines (req : Request) (out : Outcomes) : Bool :=
  limitReason req.env out == none && match retrievedBy req out with
    | .error _ => false
    | .ok contexts => !contexts.isEmpty && raisesAfterUsage (req.provider.stream req.question contexts)

section Grammar

variable {req : Request} {out : Outcomes}

theorem usages_texts (texts : List String) (events : List ProviderEvent) :
    usages (texts.map ProviderEvent.token ++ events) = usages events := by
  induction texts with
  | nil => rfl
  | cons text texts ih => exact ih

variable (req out) in
/-- Tokens are passed on, and the loop goes on with what follows them. -/
theorem shows_tokens (answerId : Uuid) (contexts : List Context) (events : List ProviderEvent)
    (texts : List String) : ∀ l, ∃ l', ∀ {vs r l''},
      Shows out (forEach events (forward req.env answerId contexts)) l' vs r l'' →
      Shows out (forEach (texts.map ProviderEvent.token ++ events) (forward req.env answerId contexts)) l
        (texts.map Frame.token ++ vs) r l'' := by
  induction texts with
  | nil => exact fun l => ⟨l, fun h => h⟩
  | cons text texts ih =>
    intro l
    obtain ⟨l', h⟩ := ih { l with streamed := l.streamed ++ [text] }
    refine ⟨l', fun hevents => ?_⟩
    have hbind := Plays.bind (f := fun _ => forEach (texts.map ProviderEvent.token ++ events)
      (forward req.env answerId contexts)) (shows_forward_token req out answerId contexts text l) (h hevents)
    exact hbind

/-- How the loop ends, after its frames. -/
theorem shows_relay_of_loop {answerId : Uuid} {contexts : List Context} {l l' : AskLocals} {vs : List Frame}
    {run : ProviderRun} (hrun : req.provider.stream req.question contexts = run)
    (h : Shows out (forEach run.events (forward req.env answerId contexts)) l vs (.ok ()) l') :
    Shows out (relay req answerId contexts) l vs
      (match run.raised with
        | none => .ok ()
        | some exc => .error (.other exc)) l' := by
  unfold relay
  rw [hrun]
  have hend : Shows out (match run.raised with
      | none => return ()
      | some exc => Stmt.raise (.other exc)) l' [] (match run.raised with
        | none => .ok ()
        | some exc => .error (.other exc)) l' := by
    cases run.raised with
    | none => exact plays_pure ()
    | some exc => exact plays_raise _
  have hbind := Plays.bind (f := fun _ => (match run.raised with
      | none => return ()
      | some exc => Stmt.raise (.other exc) : Ask Unit)) h hend
  rw [List.append_nil] at hbind
  exact hbind

/-- The frames of a request that is within the limits and retrieves something. -/
theorem shows_answer {contexts : List Context} (hret : retrievedBy req out = .ok contexts)
    (hne : contexts ≠ []) {vs : List Frame} {r : Except Exc Unit} {l' : AskLocals}
    (hrelay : Shows out (relay req out.answerId contexts) { answerId := some out.answerId, contexts } vs r l') :
    Shows out (answer req) {}
      (.meta out.answerId req.provider.name :: .sources (contexts.map sourceOf) :: vs) r l' := by
  have hempty : contexts.isEmpty = false := by simpa using hne
  have hsearch := shows_search req out {}
  rw [hret] at hsearch
  refine Plays.bind hsearch ?_
  refine Plays.bind (plays_assign fun l : AskLocals => { l with contexts }) ?_
  rw [hempty]
  refine Plays.bind (shows_recordAnswer req out false _) (Plays.bind (shows_audit out _ _ _) ?_)
  refine Plays.bind (shows_forged out contexts _) (Plays.bind (shows_send out _ _) ?_)
  rw [if_neg Bool.false_ne_true]
  exact Plays.bind (shows_stats req out _) (Plays.bind (shows_send out _ _) hrelay)

/-- The frames of a request that is within the limits and retrieves nothing. -/
theorem shows_answer_refused (hret : retrievedBy req out = .ok []) : ∃ l',
    Shows out (answer req) {} (.meta out.answerId req.provider.name ::
      (refusalTokens.map Frame.token ++ [.done 0 0 0 []])) (.ok ()) l' := by
  have hsearch := shows_search req out {}
  rw [hret] at hsearch
  obtain ⟨l', hrefuse⟩ := shows_refuse out { answerId := some out.answerId, contexts := [] }
  generalize refusalTokens.map Frame.token ++ [.done 0 0 0 []] = vs at hrefuse ⊢
  refine ⟨l', Plays.bind hsearch ?_⟩
  refine Plays.bind (plays_assign fun l : AskLocals => { l with contexts := [] }) ?_
  refine Plays.bind (shows_recordAnswer req out true _) (Plays.bind (shows_audit out _ _ _) ?_)
  exact Plays.bind (shows_forged out [] _) (Plays.bind (shows_send out _ _) hrefuse)

/-- A request over a limit, or within the limits, as the `try` block goes on with it. -/
theorem shows_attempt {vs : List Frame} {r : Except Exc Unit} {l' : AskLocals}
    (h : Shows out (match limitReason req.env out with
      | some reason => blocked req reason
      | none => answer req) {} vs r l') : Shows out (attempt req) {} vs r l' :=
  Plays.bind (shows_limitBlock req out {}) h

theorem raisesAfterUsage_texts (texts : List String) (raised : Option String) :
    raisesAfterUsage ⟨texts.map .token, raised⟩ = false := by
  have husages := usages_texts texts []
  rw [List.append_nil] at husages
  rw [raisesAfterUsage, husages]
  exact Bool.and_false _

theorem raisesAfterUsage_usage (texts : List String) (usage : Usage) (raised : Option String) :
    raisesAfterUsage ⟨texts.map .token ++ [.usage usage], raised⟩ = raised.isSome := by
  rw [raisesAfterUsage, usages_texts]
  exact Bool.and_true _

theorem declines_of_asked {contexts : List Context} (hlimit : limitReason req.env out = none)
    (hret : retrievedBy req out = .ok contexts) (hne : contexts ≠ []) :
    declines req out = raisesAfterUsage (req.provider.stream req.question contexts) := by
  have hempty : contexts.isEmpty = false := by simpa using hne
  rw [declines, hlimit, hret]
  show (true && (!contexts.isEmpty && _)) = _
  rw [hempty]
  rfl

/-- A provider that raises before its usage event leaves tokens and an error. -/
theorem framesOf_failed {contexts : List Context} (hlimit : limitReason req.env out = none)
    (hret : retrievedBy req out = .ok contexts) (hne : contexts ≠ []) {texts : List String} {exc : String}
    (hrun : req.provider.stream req.question contexts = ⟨texts.map .token, some exc⟩) :
    ∃ message, framesOf req out = .meta out.answerId req.provider.name ::
      .sources (contexts.map sourceOf) :: (texts.map Frame.token ++ [.error message]) := by
  obtain ⟨l', htokens⟩ := shows_tokens req out out.answerId contexts [] texts
    { answerId := some out.answerId, contexts }
  have hloop := htokens (plays_pure ())
  rw [List.append_nil, List.append_nil] at hloop
  have h := shows_answer hret hne (shows_relay_of_loop hrun hloop)
  have hexit : Exc.other exc ≠ .generatorExit := by simp
  obtain ⟨message, hframes⟩ := framesOf_of_error req out hexit (shows_attempt (by rw [hlimit]; exact h))
  exact ⟨message, hframes⟩

/-- A provider that reports its usage leaves tokens and a `done` frame, and an error after it if it raises. -/
theorem framesOf_reported {contexts : List Context} (hlimit : limitReason req.env out = none)
    (hret : retrievedBy req out = .ok contexts) (hne : contexts ≠ []) {texts : List String} {usage : Usage}
    {raised : Option String}
    (hrun : req.provider.stream req.question contexts = ⟨texts.map .token ++ [.usage usage], raised⟩) :
    ∃ warnings tail, (if raised.isSome then ∃ message, tail = [.error message] else tail = []) ∧
      framesOf req out = .meta out.answerId req.provider.name :: .sources (contexts.map sourceOf) ::
        (texts.map Frame.token ++
          [.done usage.inputTokens usage.outputTokens usage.costUsd warnings]) ++ tail := by
  obtain ⟨l', htokens⟩ := shows_tokens req out out.answerId contexts [.usage usage] texts
    { answerId := some out.answerId, contexts }
  obtain ⟨warnings, hdone⟩ := shows_forward_usage req out out.answerId contexts usage l'
  have hlast : Shows out (forEach [.usage usage] (forward req.env out.answerId contexts)) l'
      [.done usage.inputTokens usage.outputTokens usage.costUsd warnings] (.ok ())
      { l' with billed := true } := Plays.bind hdone (plays_pure ())
  have h := shows_answer hret hne (shows_relay_of_loop hrun (htokens hlast))
  refine ⟨warnings, ?_⟩
  cases raised with
  | none =>
    have hframes := framesOf_of_ok req out (shows_attempt (by rw [hlimit]; exact h))
    exact ⟨[], rfl, by rw [hframes, List.append_nil]⟩
  | some exc =>
    have hexit : Exc.other exc ≠ .generatorExit := by simp
    obtain ⟨message, hframes⟩ := framesOf_of_error req out hexit (shows_attempt (by rw [hlimit]; exact h))
    exact ⟨[.error message], ⟨message, rfl⟩, hframes⟩

end Grammar

/-- The stream of a provider of the repository follows the grammar, whatever the question, the state of
the limits and what retrieval finds, except that one that is asked and raises after its usage event has
both a `done` and an `error` frame. -/
theorem stream_follows_protocol_iff (req : Request) (hp : RepositoryProvider req.provider) (out : Outcomes) :
    Protocol (framesOf req out) ↔ declines req out = false := by
  cases hlimit : limitReason req.env out with
  | some reason =>
    obtain ⟨message, l', h⟩ := shows_blocked req out reason {}
    rw [framesOf_of_ok req out (shows_attempt (by rw [hlimit]; exact h)), declines, hlimit]
    exact ⟨fun _ => rfl, fun _ => protocol_plain _ _ [] rfl⟩
  | none =>
    cases hret : retrievedBy req out with
    | error e =>
      have hsearch := shows_search req out {}
      rw [hret] at hsearch
      have hanswer : Shows out (answer req) {} [] (.error e) {} := Plays.bind_error _ hsearch
      have hexit : e ≠ .generatorExit := by
        rintro rfl
        unfold retrievedBy at hret
        split at hret
        · simp at hret
        · split at hret <;> simp at hret
      obtain ⟨message, hframes⟩ :=
        framesOf_of_error req out hexit (shows_attempt (by rw [hlimit]; exact hanswer))
      rw [hframes, List.nil_append, declines, hret]
      exact ⟨fun _ => Bool.and_false _, fun _ => .failed message⟩
    | ok contexts =>
      by_cases hne : contexts = []
      · subst hne
        obtain ⟨l', h⟩ := shows_answer_refused hret
        rw [framesOf_of_ok req out (shows_attempt (by rw [hlimit]; exact h)), declines, hret]
        exact ⟨fun _ => Bool.and_false _, fun _ => protocol_plain _ _ refusalTokens rfl⟩
      · rw [declines_of_asked hlimit hret hne]
        obtain ⟨texts, ⟨exc, hrun⟩ | ⟨usage, raised, hrun⟩⟩ := repositoryProvider_cases hp req.question contexts
        · obtain ⟨message, hframes⟩ := framesOf_failed hlimit hret hne hrun
          rw [hframes, hrun, raisesAfterUsage_texts]
          exact ⟨fun _ => rfl, fun _ => protocol_sources _ _ _ texts rfl⟩
        · obtain ⟨warnings, tail, htail, hframes⟩ := framesOf_reported hlimit hret hne hrun
          rw [hframes, hrun, raisesAfterUsage_usage]
          cases raised with
          | none =>
            obtain rfl : tail = [] := htail
            rw [List.append_nil]
            exact ⟨fun _ => rfl, fun _ => protocol_sources _ _ _ texts rfl⟩
          | some exc =>
            obtain ⟨message, rfl⟩ : ∃ message, tail = [.error message] := htail
            refine ⟨fun h => absurd h.terminal ?_, fun h => absurd h (by simp)⟩
            have htwo : ([Frame.done usage.inputTokens usage.outputTokens usage.costUsd warnings,
              .error message].filter isTerminal).length = 2 := rfl
            simp [isTerminal]
            rw [htwo]
            omega

/-- The API's model, which answers a request with nothing but this final message. -/
def terseProvider (final : Except String FinalMessage) : AnswerProvider :=
  claudeAnswerProvider "claude-opus-5" 1024 (fun _ => ⟨[], final⟩)
    ⟨['f', 'e', 'd', 'c', '7', '6', '5', '4'], rfl, by simp [isHex]⟩

/-- A request to it. -/
def terseRequest (final : Except String FinalMessage) : Request where
  env := asciiEnv id
  tracing := false
  embedQuery := fun _ => .ok []
  provider := terseProvider final
  question := "refunds?"
  k := 1

theorem terseRequest_repository (final : Except String FinalMessage) :
    RepositoryProvider (terseRequest final).provider := by
  show RepositoryProvider (terseProvider final)
  unfold terseProvider
  exact .claude _ _ _ _

/-- An org within its limits, and a passage for the question. -/
def withinLimits : Outcomes :=
  ⟨0, 0, 0, .ok [⟨2, 0, "Five days.", "refunds.md", 0⟩], ⟨1, 1⟩, 7, "0123abcd"⟩

/-- A request the model declines ends twice: with a `done` frame and then with an `error` frame. -/
theorem declined_request_ends_twice :
    ¬ Protocol (framesOf (terseRequest (.ok ⟨10, 0, some (some "policy")⟩)) withinLimits) := by
  intro h
  have htwo : ((framesOf (terseRequest (.ok ⟨10, 0, some (some "policy")⟩)) withinLimits).filter
      isTerminal).length = 2 := by decide
  rw [h.terminal] at htwo
  exact absurd htwo (by decide)

/-- A request the model answers follows the grammar. -/
theorem answered_request_follows_protocol :
    Protocol (framesOf (terseRequest (.ok ⟨10, 0, none⟩)) withinLimits) :=
  (stream_follows_protocol_iff _ (terseRequest_repository (.ok ⟨10, 0, none⟩)) withinLimits).2
    (by decide)

end KnowledgeDesk.Proofs
