import KnowledgeDesk.Proofs.AskStreamsProofs

/-!
# What an ask has read before it writes

An ask that its check lets through has read a spend below the budget and a number of questions below the cap
before it retrieves anything, and it records its answer after that. An ask that its check stops retrieves
nothing and books nothing.
-/

namespace KnowledgeDesk.Proofs

open Assistant Providers Stmt AskStreams

variable {settings : Settings} {h : List AskEvent}

/-! ## The events -/

/-- The reply to `questions_this_month`. -/
def questionsTold? : AskEvent → Option Nat
  | .performed (.db .questionsThisMonth) (.ok questions) => some questions
  | _ => none

/-- The reply to `spend_last_24h`. -/
def spendTold? : AskEvent → Option ℚ≥0
  | .performed (.db .spendLast24h) (.ok spend) => some spend
  | _ => none

/-- The id of the answer that was recorded. -/
def recordedId? : AskEvent → Option Uuid
  | .performed (.db (.recordAnswer ..)) (.ok answerId) => some answerId
  | _ => none

/-- The passages for the question are retrieved. -/
def isSearch : AskEvent → Bool
  | .performed (.db (.search ..)) _ => true
  | _ => false

/-- The stream has retrieved, or tried to. -/
def searched (h : List AskEvent) : Bool := h.any isSearch

/-- Nothing is recorded yet. -/
def Unrecorded (h : List AskEvent) : Prop := ∀ e ∈ h, recordedId? e = none

/-- The answer is recorded. -/
def Recorded (answerId : Uuid) (h : List AskEvent) : Prop := ∃ e ∈ h, recordedId? e = some answerId

/-- The stream began by reading a spend below the budget and a number of questions below the cap. -/
def LetThrough (settings : Settings) (h : List AskEvent) : Prop :=
  ∃ spend questions rest, h = .performed (.db .spendLast24h) (.ok spend) ::
    .performed (.db .questionsThisMonth) (.ok questions) :: rest ∧
    spend < settings.dailyBudgetUsd ∧ questions < settings.monthlyQuestionCap

/-- What has happened to a stream before it comes to an operation. -/
def Ready (settings : Settings) (h : List AskEvent) : AskOp → Prop
  | .db (.search ..) => Unrecorded h
  | .db (.recordAnswer ..) => searched h = true → LetThrough settings h
  | .db (.finalizeAnswer answerId ..) => LetThrough settings h ∧ Recorded answerId h
  | _ => True

theorem LetThrough.append (hl : LetThrough settings h) (h' : List AskEvent) : LetThrough settings (h ++ h') := by
  obtain ⟨spend, questions, rest, rfl, hs, hq⟩ := hl
  exact ⟨spend, questions, rest ++ h', rfl, hs, hq⟩

theorem Recorded.append {answerId : Uuid} (hr : Recorded answerId h) (h' : List AskEvent) :
    Recorded answerId (h ++ h') := by
  obtain ⟨e, he, hid⟩ := hr
  exact ⟨e, List.mem_append_left h' he, hid⟩

/-! ## Assertions that only retrieving and writing touch -/

/-- An operation other than to retrieve, and to record an answer, to block it and to book it. -/
def Idle : AskOp → Prop
  | .db (.search ..) | .db (.recordAnswer ..) | .db (.markBlocked ..) | .db (.finalizeAnswer ..) => False
  | _ => True

theorem Idle.ready {o : AskOp} (ho : Idle o) : Ready settings h o := by
  unfold Idle at ho
  unfold Ready
  split <;> simp_all

theorem Idle.recordedId? {o : AskOp} (ho : Idle o) (r : o.Reply) :
    Proofs.recordedId? (.performed o r) = none := by
  unfold Proofs.recordedId?
  split
  · rename_i he
    cases he
    exact ho.elim
  · rfl

theorem Idle.isSearch {o : AskOp} (ho : Idle o) (r : o.Reply) : Proofs.isSearch (.performed o r) = false := by
  unfold Proofs.isSearch
  split
  · rename_i he
    cases he
    exact ho.elim
  · rfl

/-- An assertion that idle operations and `yield`s leave true. -/
structure Steady (I : List AskEvent → AskLocals → Prop) : Prop where
  performed : ∀ {h l o r}, Idle o → I h l → I (h ++ [.performed o r]) l
  yielded : ∀ {h l}, I h l → ∀ f s, I (h ++ [.yielded f s]) l

section Steady

variable {I : List AskEvent → AskLocals → Prop}

theorem Steady.send (hI : Steady I) (frame : Frame) : Keeps I (Assistant.send frame) :=
  keeps_yield fun _ _ s hi => hI.yielded hi frame s

theorem Steady.audit (hI : Steady I) (action : String) (detail : List (String × DetailValue)) :
    Keeps I (Assistant.audit action detail) :=
  keeps_perform fun _ _ _ hi => hI.performed trivial hi

theorem Steady.tokenHex (hI : Steady I) : Keeps I Assistant.tokenHex :=
  keeps_perform fun _ _ _ hi => hI.performed trivial hi

theorem Steady.receive (hI : Steady I) (event : ProviderEvent) : Keeps I (Assistant.receive event) :=
  keeps_perform fun _ _ _ hi => hI.performed trivial hi

/-- A database call ends with what it came back with. -/
theorem spec_callDb {call : AskCall} {P : List AskEvent → AskLocals → Prop}
    {Q : List AskEvent → Except Exc call.Ret → AskLocals → Prop}
    (hok : ∀ h l a, P h l → Q (h ++ [.performed (.db call) (.ok a)]) (.ok a) l)
    (herr : ∀ h l e, P h l → Q (h ++ [.performed (.db call) (.error e)]) (.error (.db e)) l) :
    Spec P (callDb call) Q := by
  have hperform : Spec P (perform (AskOp.db call) : Ask (AskOp.Reply (.db call))) fun h r l =>
      ∃ reply, r = .ok reply ∧ ∃ h₀, h = h₀ ++ [.performed (.db call) reply] ∧ P h₀ l :=
    spec_perform fun h l r hp => ⟨r, rfl, h, rfl, hp⟩
  refine spec_bind hperform (fun reply => ?_) fun h e l hr => by
    obtain ⟨_, hr, -⟩ := hr
    cases hr
  cases reply with
  | ok a =>
    refine spec_pure fun h l hr => ?_
    obtain ⟨_, hr, h₀, rfl, hp⟩ := hr
    cases hr
    exact hok h₀ l a hp
  | error e =>
    refine spec_raise fun h l hr => ?_
    obtain ⟨_, hr, h₀, rfl, hp⟩ := hr
    cases hr
    exact herr h₀ l e hp

theorem Steady.callDb (hI : Steady I) (call : AskCall) (hcall : Idle (.db call)) :
    Keeps I (Assistant.callDb call) :=
  spec_callDb (fun _ _ _ hi => hI.performed hcall hi) fun _ _ _ hi => hI.performed hcall hi

theorem Steady.refuse (hI : Steady I) : Keeps I Assistant.refuse :=
  (keeps_forEach (fun text => hI.send (.token text)) refusalTokens).bind fun _ => hI.send _

end Steady

/-! ## The phases of an ask -/

/-- Whatever the ask has done, it was ready for. -/
abbrev WellPrepared (settings : Settings) (h : List AskEvent) : Prop := Gen.Each (Ready settings) h

/-- The check is being made. -/
structure Checking (settings : Settings) (h : List AskEvent) (l : AskLocals) : Prop where
  ordered : WellPrepared settings h
  unsearched : searched h = false
  unrecorded : Unrecorded h
  streamed : l.streamed = []

/-- There is nothing to book. -/
def Unstreamed (settings : Settings) (h : List AskEvent) (l : AskLocals) : Prop :=
  WellPrepared settings h ∧ l.streamed = []

/-- The check has let the ask through, and its answer is recorded. -/
structure Answering (settings : Settings) (answerId : Uuid) (h : List AskEvent) (l : AskLocals) : Prop where
  ordered : WellPrepared settings h
  letThrough : LetThrough settings h
  recorded : Recorded answerId h
  answered : l.answerId = some answerId

/-- What holds when the `try` statement is over. -/
def Bookable (settings : Settings) (h : List AskEvent) (l : AskLocals) : Prop :=
  Unstreamed settings h l ∨ ∃ answerId, Answering settings answerId h l

theorem checking_steady : Steady (Checking settings) where
  performed ho hc := by
    refine ⟨hc.ordered.performed ho.ready, ?_, fun e he => ?_, hc.streamed⟩
    · rw [searched, List.any_append, ← searched, hc.unsearched]
      simp [ho.isSearch]
    · rcases List.mem_append.1 he with he | he
      · exact hc.unrecorded e he
      · rw [List.mem_singleton.1 he]
        exact ho.recordedId? _
  yielded hc f s := by
    refine ⟨hc.ordered.yielded f s, ?_, fun e he => ?_, hc.streamed⟩
    · rw [searched, List.any_append, ← searched, hc.unsearched]
      rfl
    · rcases List.mem_append.1 he with he | he
      · exact hc.unrecorded e he
      · rw [List.mem_singleton.1 he]
        rfl

theorem unstreamed_steady : Steady (Unstreamed settings) where
  performed ho hu := ⟨hu.1.performed ho.ready, hu.2⟩
  yielded hu f s := ⟨hu.1.yielded f s, hu.2⟩

theorem answering_steady (answerId : Uuid) : Steady (Answering settings answerId) where
  performed ho ha := ⟨ha.ordered.performed ho.ready, ha.letThrough.append _, ha.recorded.append _, ha.answered⟩
  yielded ha f s := ⟨ha.ordered.yielded f s, ha.letThrough.append _, ha.recorded.append _, ha.answered⟩

theorem bookable_steady : Steady (Bookable settings) where
  performed ho hb := hb.imp (fun hu => unstreamed_steady.performed ho hu)
    (Exists.imp fun answerId ha => (answering_steady answerId).performed ho ha)
  yielded hb f s := hb.imp (fun hu => unstreamed_steady.yielded hu f s)
    (Exists.imp fun answerId ha => (answering_steady answerId).yielded ha f s)

theorem Checking.unstreamed {l : AskLocals} (hc : Checking settings h l) : Unstreamed settings h l :=
  ⟨hc.ordered, hc.streamed⟩

/-! ## The statements of an ask -/

section Statements

variable (req : Request)

theorem spec_limitBlock : Spec (fun h l => h = [] ∧ l = {}) (limitBlock req) fun h r l =>
    Checking req.env.settings h l ∧ (r = .ok none → LetThrough req.env.settings h) := by
  have hI : Steady (Checking req.env.settings) := checking_steady
  have hstart : Checking req.env.settings [] {} :=
    ⟨Gen.each_nil, rfl, fun _ he => absurd he List.not_mem_nil, rfl⟩
  refine spec_bind (R := fun h r l => Checking req.env.settings h l ∧
    ∀ spend, r = .ok spend → h = [.performed (.db .spendLast24h) (.ok spend)])
    (spec_callDb (fun h l spend hp => ?_) fun h l e hp => ?_) (fun spend => ?_)
    fun h e l hq => ⟨hq.1, fun he => absurd he (by simp)⟩
  · obtain ⟨rfl, rfl⟩ := hp
    exact ⟨hI.performed trivial hstart, fun spend' he => by rw [Except.ok.inj he]; rfl⟩
  · obtain ⟨rfl, rfl⟩ := hp
    exact ⟨hI.performed trivial hstart, fun spend' he => absurd he (by simp)⟩
  split
  · exact spec_pure fun h l hq => ⟨hq.1, fun he => absurd he (by simp)⟩
  rename_i hspend
  refine spec_bind (R := fun h r l => Checking req.env.settings h l ∧ ∀ questions, r = .ok questions →
    h = [.performed (.db .spendLast24h) (.ok spend), .performed (.db .questionsThisMonth) (.ok questions)])
    (spec_callDb (fun h l questions hp => ?_) fun h l e hp => ?_) (fun questions => ?_)
    fun h e l hq => ⟨hq.1, fun he => absurd he (by simp)⟩
  · refine ⟨hI.performed trivial hp.1, fun questions' he => ?_⟩
    rw [hp.2 spend rfl, Except.ok.inj he]
    rfl
  · exact ⟨hI.performed trivial hp.1, fun questions' he => absurd he (by simp)⟩
  split
  · exact spec_pure fun h l hq => ⟨hq.1, fun he => absurd he (by simp)⟩
  rename_i hquestions
  have hplatform : Steady fun h l => Checking req.env.settings h l ∧ LetThrough req.env.settings h :=
    ⟨fun ho hi => ⟨hI.performed ho hi.1, hi.2.append _⟩, fun hi f s => ⟨hI.yielded hi.1 f s, hi.2.append _⟩⟩
  refine Spec.imp (P := fun h l => Checking req.env.settings h l ∧ LetThrough req.env.settings h)
    (Q := fun h _ l => Checking req.env.settings h l ∧ LetThrough req.env.settings h) ?_
    (fun h l hq => ⟨hq.1, spend, questions, [], hq.2 questions rfl, not_le.1 hspend, not_le.1 hquestions⟩)
    fun h r l hq => ⟨hq.1, fun _ => hq.2⟩
  refine (hplatform.callDb .platformSpendToday trivial).bind fun platform => ?_
  split
  · exact keeps_pure _
  · exact keeps_pure _

/-- Recording is ready for when it has been let through, or has retrieved nothing. -/
theorem spec_record {P : List AskEvent → AskLocals → Prop} (refused : Bool)
    (hP : ∀ h l, P h l → Unstreamed req.env.settings h l ∧ (searched h = true → LetThrough req.env.settings h)) :
    Spec P (Assistant.recordAnswer req refused) fun h r l => Unstreamed req.env.settings h l ∧
      ∀ answerId, r = .ok answerId → Recorded answerId h ∧ l.answerId = some answerId ∧
        ∃ h₀ l₀ e, P h₀ l₀ ∧ h = h₀ ++ [e] := by
  refine spec_bind (R := fun h r l => Unstreamed req.env.settings h l ∧
    ∀ answerId, r = .ok answerId → Recorded answerId h ∧ ∃ h₀ l₀ e, P h₀ l₀ ∧ h = h₀ ++ [e])
    (spec_callDb (fun h l answerId hp => ?_) fun h l e hp => ?_) (fun answerId => ?_)
    fun h e l hq => ⟨hq.1, fun _ he => absurd he (by simp)⟩
  · obtain ⟨hu, hready⟩ := hP h l hp
    refine ⟨⟨hu.1.performed hready, hu.2⟩, fun answerId' he => ⟨?_, h, l, _, hp, rfl⟩⟩
    rw [← Except.ok.inj he]
    exact ⟨_, List.mem_append_right h List.mem_cons_self, rfl⟩
  · obtain ⟨hu, hready⟩ := hP h l hp
    exact ⟨⟨hu.1.performed hready, hu.2⟩, fun _ he => absurd he (by simp)⟩
  · refine spec_bind (R := fun h _ l => Unstreamed req.env.settings h l ∧ Recorded answerId h ∧
      l.answerId = some answerId ∧ ∃ h₀ l₀ e, P h₀ l₀ ∧ h = h₀ ++ [e])
      (spec_assign fun h l hq => ?_) (fun _ => spec_pure fun h l hq => ?_)
      fun h e l hq => ⟨hq.1, fun _ he => absurd he (by simp)⟩
    · obtain ⟨hu, hrec⟩ := hq
      obtain ⟨hr, h₀, l₀, e, hp, he⟩ := hrec answerId rfl
      exact ⟨hu, hr, rfl, h₀, l₀, e, hp, he⟩
    · refine ⟨hq.1, fun answerId' he => ?_⟩
      rw [← Except.ok.inj he]
      exact hq.2

theorem spec_stopped (reason : String) : Spec (Checking req.env.settings) (blocked req reason)
    fun h _ l => Bookable req.env.settings h l := by
  have hI : Steady (Unstreamed req.env.settings) := unstreamed_steady
  refine spec_bind (spec_record req false fun h l hc => ⟨hc.unstreamed, fun hs => ?_⟩) (fun answerId => ?_)
    fun h e l hq => .inl hq.1
  · rw [hc.unsearched] at hs
    cases hs
  · have hperform : ∀ h l r, Unstreamed req.env.settings h l →
        Unstreamed req.env.settings (h ++ [.performed (.db (.markBlocked answerId)) r]) l :=
      fun h l r hu => ⟨hu.1.performed trivial, hu.2⟩
    have hblock : Keeps (Unstreamed req.env.settings) (callDb (.markBlocked answerId)) :=
      spec_callDb (fun h l _ hu => hperform h l _ hu) fun h l _ hu => hperform h l _ hu
    have hkeeps : Keeps (Unstreamed req.env.settings) (do
        let () ← callDb (.markBlocked answerId)
        Assistant.audit "question.blocked"
          [("answer_id", .str (toString answerId)), ("reason", .str reason)]
        send (.meta answerId req.provider.name)
        send (.error s!"[LIMIT] request blocked: {reason}. No answer was generated.")) :=
      hblock.bind fun _ => (hI.audit _ _).bind fun _ => (hI.send _).bind fun _ => hI.send _
    exact hkeeps.imp (fun h l hq => hq.1) fun h r l hu => .inl hu

theorem keeps_forward (env : Env) (answerId : Uuid) (contexts : List Context) (event : ProviderEvent) :
    Keeps (Answering settings answerId) (forward env answerId contexts event) := by
  have hI : Steady (Answering settings answerId) := answering_steady answerId
  refine (hI.receive event).bind fun _ => ?_
  cases event with
  | token text =>
    exact Keeps.bind (keeps_assign fun h l ha => ⟨ha.ordered, ha.letThrough, ha.recorded, ha.answered⟩)
      fun _ => hI.send _
  | usage usage =>
    have hfinalize : Keeps (Answering settings answerId) (callDb (.finalizeAnswer answerId usage false)) :=
      have hbook : ∀ h l r, Answering settings answerId h l → Answering settings answerId
          (h ++ [.performed (.db (.finalizeAnswer answerId usage false)) r]) l := fun h l r ha =>
        ⟨ha.ordered.performed ⟨ha.letThrough, ha.recorded⟩, ha.letThrough.append _, ha.recorded.append _,
          ha.answered⟩
      spec_callDb (fun h l _ ha => hbook h l _ ha) fun h l _ ha => hbook h l _ ha
    refine hfinalize.bind fun _ => ?_
    refine Keeps.bind (keeps_assign fun h l ha => ⟨ha.ordered, ha.letThrough, ha.recorded, ha.answered⟩)
      fun _ => ?_
    refine Keeps.bind (spec_locals fun h l ha => ha) fun l => ?_
    refine Keeps.bind ?_ fun _ => hI.send _
    split
    · exact keeps_pure ()
    · exact hI.audit _ _

theorem keeps_relay (answerId : Uuid) (contexts : List Context) :
    Keeps (Answering settings answerId) (relay req answerId contexts) := by
  refine (keeps_forEach (fun event => keeps_forward req.env answerId contexts event) _).bind fun _ => ?_
  split
  · exact keeps_pure ()
  · exact keeps_raise _

theorem spec_answered : Spec (fun h l => Checking req.env.settings h l ∧ LetThrough req.env.settings h)
    (answer req) fun h _ l => Bookable req.env.settings h l := by
  let Found (h : List AskEvent) (l : AskLocals) : Prop :=
    Unstreamed req.env.settings h l ∧ LetThrough req.env.settings h
  have hsearch : Spec (fun h l => Checking req.env.settings h l ∧ LetThrough req.env.settings h)
      (Assistant.search req) fun h _ l => Found h l := by
    unfold Assistant.search
    split
    · exact spec_raise fun h l hc => ⟨hc.1.unstreamed, hc.2⟩
    · have hperform : ∀ h l embedding r, Checking req.env.settings h l ∧ LetThrough req.env.settings h →
          Found (h ++ [.performed (.db (.search embedding req.k)) r]) l := fun h l embedding r hc =>
        ⟨⟨hc.1.ordered.performed hc.1.unrecorded, hc.1.streamed⟩, hc.2.append _⟩
      exact spec_callDb (fun h l _ hc => hperform h l _ _ hc) fun h l _ hc => hperform h l _ _ hc
  refine spec_bind hsearch (fun contexts => ?_) fun h e l hf => .inl hf.1
  refine spec_bind (R := fun h _ l => Found h l) (spec_assign fun h l hf => hf) (fun _ => ?_)
    fun h e l hf => .inl hf.1
  refine spec_bind (spec_record req contexts.isEmpty fun h l hf => ⟨hf.1, fun _ => hf.2⟩) (fun answerId => ?_)
    fun h e l hq => .inl hq.1
  have hI : Steady (Answering req.env.settings answerId) := answering_steady answerId
  refine Spec.imp (P := Answering req.env.settings answerId)
    (Q := fun h _ l => Answering req.env.settings answerId h l) ?_ (fun h l hq => ?_)
    fun h r l ha => .inr ⟨answerId, ha⟩
  · refine (hI.audit _ _).bind fun _ => Keeps.bind ?_ fun _ => (hI.send _).bind fun _ => ?_
    · split
      · exact keeps_pure ()
      · exact hI.audit _ _
    · split
      · exact hI.refuse
      · refine Keeps.bind ?_ fun _ => (hI.send _).bind fun _ => keeps_relay req answerId contexts
        split
        · exact (hI.callDb .retrievalStats trivial).bind fun _ => keeps_pure ()
        · exact keeps_pure ()
  · obtain ⟨hu, hrec⟩ := hq
    obtain ⟨hr, ha, h₀, l₀, e, hf, rfl⟩ := hrec answerId rfl
    exact ⟨hu.1, hf.2.append _, hr, ha⟩

theorem spec_tried : Spec (fun h l => h = [] ∧ l = {}) ((attempt req).tryExcept onFailure)
    fun h _ l => Bookable req.env.settings h l := by
  have hattempt : Spec (fun h l => h = [] ∧ l = {}) (attempt req)
      fun h _ l => Bookable req.env.settings h l := by
    refine spec_bind (spec_limitBlock req) (fun reason => ?_) fun h e l hq => .inl hq.1.unstreamed
    cases reason with
    | some reason => exact (spec_stopped req reason).imp (fun h l hq => hq.1) fun h r l hq => hq
    | none => exact (spec_answered req).imp (fun h l hq => ⟨hq.1, hq.2 rfl⟩) fun h r l hq => hq
  refine spec_tryExcept hattempt (fun h a l hb => hb) (fun h e l _ hb => hb) fun e k hk => ?_
  have hI : Steady (Bookable req.env.settings) := bookable_steady
  have hhandler : Keeps (Bookable req.env.settings) (do
      let reference ← tokenHex
      send (.error (failureMessage reference))) := hI.tokenHex.bind fun _ => hI.send _
  cases e with
  | generatorExit => cases hk
  | db e =>
    obtain rfl := Option.some.inj hk
    exact hhandler
  | other repr =>
    obtain rfl := Option.some.inj hk
    exact hhandler

/-- The `finally` block books what the stream has passed on, which one that was stopped has not. -/
theorem spec_settled : Spec (Bookable req.env.settings) (settle req)
    fun h _ _ => WellPrepared req.env.settings h := by
  have hordered : ∀ h l, Bookable req.env.settings h l → WellPrepared req.env.settings h := by
    rintro h l (hu | ⟨answerId, ha⟩)
    · exact hu.1
    · exact ha.ordered
  refine spec_bind (R := fun h r l => r = .ok l ∧ Bookable req.env.settings h l)
    (spec_locals fun h l hb => ⟨rfl, hb⟩) (fun l₀ => ?_) fun h e l hb => hordered h l hb.2
  split
  · exact spec_pure fun h l hb => hordered h l hb.2
  · rename_i answerId hanswer
    by_cases hskip : (l₀.billed || l₀.streamed.isEmpty) = true
    · rw [if_pos hskip]
      exact spec_pure fun h l hb => hordered h l hb.2
    · rw [if_neg hskip]
      have hbook : ∀ h l r, ((Except.ok l₀ : Except Exc AskLocals) = .ok l ∧ Bookable req.env.settings h l) →
          WellPrepared req.env.settings (h ++ [.performed (.db (.finalizeAnswer answerId
            (req.provider.estimate req.question l₀.contexts (String.join l₀.streamed)) true)) r]) := by
        rintro h l r ⟨he, hb⟩
        obtain rfl := Except.ok.inj he
        rcases hb with hu | ⟨answerId', ha⟩
        · rw [hu.2] at hskip
          exact absurd (Bool.or_true _) hskip
        · obtain rfl : answerId' = answerId := Option.some.inj (ha.answered.symm.trans hanswer)
          exact ha.ordered.performed ⟨ha.letThrough, ha.recorded⟩
      exact spec_callDb (fun h l _ hb => hbook h l _ hb) fun h l _ hb => hbook h l _ hb

end Statements

/-- Every operation can be replied to. -/
theorem reply_nonempty (o : AskOp) : Nonempty o.Reply := by
  cases o with
  | db call => exact ⟨.error (.forbidden "")⟩
  | audit action detail => exact ⟨()⟩
  | receive event => exact ⟨()⟩
  | tokenHex => exact ⟨""⟩

/-- When a stream comes to an operation, what it is to have done before has happened. -/
theorem ready_of_reaches {req : Request} {es : List AskEvent} {o : AskOp} {k : o.Reply → AskGen}
    (h : Gen.Reaches (start req) es (.perform o k)) : Ready req.env.settings es o := by
  refine Gen.Each.of_reaches reply_nonempty (fun es r hpath => ?_) h
  exact spec_tryFinally (Q := fun h _ _ => WellPrepared req.env.settings h) (spec_tried req)
    (fun _ => spec_settled req) [] {} ⟨rfl, rfl⟩ es r.1 r.2 hpath

end KnowledgeDesk.Proofs
