import KnowledgeDesk.Assistant

/-!
# What an answer stream books

The bookings of a stream follow from the provider's events that reached it: each usage event is booked as
it arrives, and the `finally` block books an estimate when tokens arrived and no usage was booked.
-/

namespace KnowledgeDesk.Proofs

open Assistant Providers Stmt

/-- A `finalize_answer` call: the answer, what is booked, and whether it is flagged as an estimate. -/
def booking? : AskEvent → Option (Uuid × Usage × Bool)
  | .performed (.db (.finalizeAnswer answerId usage estimated)) _ => some (answerId, usage, estimated)
  | _ => none

/-- The arrival of an event of the provider. -/
def received? : AskEvent → Option ProviderEvent
  | .performed (.receive event) _ => some event
  | _ => none

/-- A database write that raised. -/
def failedWrite : AskEvent → Bool
  | .performed (.db (.recordAnswer ..)) (.error _) => true
  | .performed (.db (.markBlocked ..)) (.error _) => true
  | .performed (.db (.finalizeAnswer ..)) (.error _) => true
  | _ => false

/-- The `finalize_answer` calls of a stream, in order. -/
def bookings (h : List AskEvent) : List (Uuid × Usage × Bool) := h.filterMap booking?

/-- The provider's events that reached the stream, in order. -/
def received (h : List AskEvent) : List ProviderEvent := h.filterMap received?

/-- No database write of the stream raised. -/
def WritesSucceed (h : List AskEvent) : Prop := ∀ e ∈ h, failedWrite e = false

/-- The texts that arrived. -/
def texts (events : List ProviderEvent) : List String :=
  events.filterMap fun
    | .token text => some text
    | .usage _ => none

theorem bookings_append (h h' : List AskEvent) : bookings (h ++ h') = bookings h ++ bookings h' :=
  List.filterMap_append

theorem received_append (h h' : List AskEvent) : received (h ++ h') = received h ++ received h' :=
  List.filterMap_append

theorem WritesSucceed.left {h h' : List AskEvent} (hw : WritesSucceed (h ++ h')) : WritesSucceed h :=
  fun e he => hw e (List.mem_append_left h' he)

/-- An event that neither books nor brings an event of the provider. -/
def Neutral (e : AskEvent) : Prop := booking? e = none ∧ received? e = none

theorem Neutral.bookings {e : AskEvent} (he : Neutral e) (h : List AskEvent) :
    bookings (h ++ [e]) = bookings h := by
  rw [bookings_append]
  simp [Proofs.bookings, he.1]

theorem Neutral.received {e : AskEvent} (he : Neutral e) (h : List AskEvent) :
    received (h ++ [e]) = received h := by
  rw [received_append]
  simp [Proofs.received, he.2]

theorem neutral_yielded (f : Frame) (s : Signal) : Neutral (.yielded f s) := ⟨rfl, rfl⟩

theorem neutral_audit (action : String) (detail : List (String × DetailValue)) (r : Unit) :
    Neutral (.performed (.audit action detail) r) := ⟨rfl, rfl⟩

theorem neutral_tokenHex (r : String) : Neutral (.performed .tokenHex r) := ⟨rfl, rfl⟩

/-- A call other than `finalize_answer`. -/
def Unbooked : AskCall → Prop
  | .finalizeAnswer .. => False
  | _ => True

theorem neutral_db {call : AskCall} (hcall : Unbooked call) (r : Except Err call.Ret) :
    Neutral (.performed (.db call) r) := by
  cases call with
  | finalizeAnswer => exact hcall.elim
  | _ => exact ⟨rfl, rfl⟩

/-! ## Assertions that only the bookings, the provider's events and the variables decide -/

/-- An assertion that no neutral event touches. -/
def Unmoved (I : List AskEvent → AskLocals → Prop) : Prop :=
  ∀ h l e, Neutral e → I h l → I (h ++ [e]) l

section Unmoved

variable {I : List AskEvent → AskLocals → Prop} (hI : Unmoved I)
include hI

theorem keeps_send (frame : Frame) : Keeps I (send frame) :=
  keeps_yield fun h l s => hI h l _ (neutral_yielded frame s)

theorem keeps_audit (action : String) (detail : List (String × DetailValue)) :
    Keeps I (Assistant.audit action detail) :=
  keeps_perform fun h l r => hI h l _ (neutral_audit action detail r)

theorem keeps_tokenHex : Keeps I tokenHex :=
  keeps_perform fun h l r => hI h l _ (neutral_tokenHex r)

theorem keeps_callDb (call : AskCall) (hcall : Unbooked call) : Keeps I (callDb call) := by
  have hperform : Keeps I (perform (AskOp.db call) : Ask (AskOp.Reply (.db call))) :=
    keeps_perform fun h l r => hI h l _ (neutral_db hcall r)
  refine hperform.bind fun r => ?_
  match r with
  | .ok a => exact keeps_pure a
  | .error e => exact keeps_raise _

variable (req : Request)

theorem keeps_limitBlock : Keeps I (limitBlock req) := by
  refine (keeps_callDb hI .spendLast24h trivial).bind fun spend => ?_
  split
  · exact keeps_pure _
  · refine (keeps_callDb hI .questionsThisMonth trivial).bind fun questions => ?_
    split
    · exact keeps_pure _
    · refine (keeps_callDb hI .platformSpendToday trivial).bind fun platform => ?_
      split
      · exact keeps_pure _
      · exact keeps_pure _

theorem keeps_search : Keeps I (Assistant.search req) := by
  unfold Assistant.search
  split
  · exact keeps_raise _
  · exact keeps_callDb hI (.search _ _) trivial

theorem keeps_refuse : Keeps I refuse :=
  (keeps_forEach (fun text => keeps_send hI (.token text)) refusalTokens).bind fun _ =>
    keeps_send hI _

end Unmoved

/-! ## Before the provider is asked -/

/-- Nothing has arrived, and nothing is booked. -/
structure Untouched (h : List AskEvent) (l : AskLocals) : Prop where
  bookings : bookings h = []
  received : received h = []
  streamed : l.streamed = []
  billed : l.billed = false

theorem untouched_unmoved : Unmoved Untouched := by
  intro h l e he hu
  exact ⟨(he.bookings h).trans hu.bookings, (he.received h).trans hu.received, hu.streamed, hu.billed⟩

/-- The assertion, and which answer the stream has recorded. -/
def Untouched.For (answerId : Uuid) (h : List AskEvent) (l : AskLocals) : Prop :=
  Untouched h l ∧ l.answerId = some answerId

theorem untouched_for_unmoved (answerId : Uuid) : Unmoved (Untouched.For answerId) :=
  fun h l e he hu => ⟨untouched_unmoved h l e he hu.1, hu.2⟩

theorem spec_recordAnswer (req : Request) (refused : Bool) :
    Spec Untouched (Assistant.recordAnswer req refused) fun h r l => match r with
      | .ok answerId => Untouched.For answerId h l
      | .error _ => Untouched h l := by
  refine (keeps_callDb untouched_unmoved (.recordAnswer _ _ _) trivial).spec_bind (fun answerId => ?_)
    fun h e l hu => hu
  refine spec_bind (spec_assign (Q := fun h _ l => Untouched.For answerId h l) fun h l hu => ?_)
    (fun _ => spec_pure fun h l hu => hu) fun h e l hu => hu.1
  exact ⟨⟨hu.bookings, hu.received, hu.streamed, hu.billed⟩, rfl⟩

theorem spec_blocked (req : Request) (reason : String) :
    Spec Untouched (blocked req reason) fun h _ l => Untouched h l := by
  refine spec_bind (spec_recordAnswer req false) (fun answerId => ?_) fun h e l hu => hu
  have hI := untouched_unmoved
  have hkeeps : Keeps Untouched (do
      let () ← callDb (.markBlocked answerId)
      Assistant.audit "question.blocked"
        [("answer_id", .str (toString answerId)), ("reason", .str reason)]
      send (.meta answerId req.provider.name)
      send (.error s!"[LIMIT] request blocked: {reason}. No answer was generated.")) :=
    (keeps_callDb hI (.markBlocked _) trivial).bind fun _ => (keeps_audit hI _ _).bind fun _ =>
      (keeps_send hI _).bind fun _ => keeps_send hI _
  exact hkeeps.imp (fun h l hu => hu.1) fun h r l hu => hu

/-! ## The loop over the provider's events -/

/-- The events of the provider that arrived are streamed and booked. -/
structure Tracked (answerId : Uuid) (events : List ProviderEvent) (h : List AskEvent) (l : AskLocals) :
    Prop where
  answered : l.answerId = some answerId
  streamed : l.streamed = texts events
  bookings : bookings h = (usages events).map fun usage => (answerId, usage, false)

/-- The assertion between two events, with the flag that keeps the `finally` block from booking again. -/
structure Billing (answerId : Uuid) (h : List AskEvent) (l : AskLocals) : Prop where
  tracked : Tracked answerId (received h) h l
  billed : WritesSucceed h → l.billed = !(usages (received h)).isEmpty

theorem billing_unmoved (answerId : Uuid) : Unmoved (Billing answerId) := by
  intro h l e he hb
  have hr := he.received h
  refine ⟨⟨hb.tracked.answered, ?_, ?_⟩, fun hw => ?_⟩
  · rw [hr]
    exact hb.tracked.streamed
  · rw [hr, he.bookings h]
    exact hb.tracked.bookings
  · rw [hr]
    exact hb.billed hw.left

theorem Untouched.For.billing {answerId : Uuid} {h : List AskEvent} {l : AskLocals}
    (hu : Untouched.For answerId h l) : Billing answerId h l := by
  obtain ⟨hu, ha⟩ := hu
  refine ⟨⟨ha, ?_, ?_⟩, fun _ => ?_⟩
  · rw [hu.received]
    exact hu.streamed
  · rw [hu.received]
    exact hu.bookings
  · rw [hu.received]
    exact hu.billed

/-- Between the arrival of an event and its treatment. -/
def Arrived (answerId : Uuid) (event : ProviderEvent) (h : List AskEvent) (l : AskLocals) : Prop :=
  ∃ before, received h = before ++ [event] ∧ Tracked answerId before h l ∧
    (WritesSucceed h → l.billed = !(usages before).isEmpty)

theorem spec_receive (answerId : Uuid) (event : ProviderEvent) :
    Spec (Billing answerId) (receive event) fun h r l => r = .ok () ∧ Arrived answerId event h l := by
  refine spec_perform fun h l r hb => ?_
  have hbook : bookings (h ++ [.performed (.receive event) r]) = bookings h := by
    rw [bookings_append]
    exact List.append_nil _
  refine ⟨rfl, received h, by rw [received_append]; rfl, ⟨hb.tracked.answered, hb.tracked.streamed, ?_⟩, ?_⟩
  · rw [hbook]
    exact hb.tracked.bookings
  · exact fun hw => hb.billed hw.left

/-- A token is streamed as it arrives. -/
theorem Arrived.token {answerId : Uuid} {text : String} {h : List AskEvent} {l : AskLocals}
    (ha : Arrived answerId (.token text) h l) :
    Billing answerId h { l with streamed := l.streamed ++ [text] } := by
  obtain ⟨before, hr, ht, hb⟩ := ha
  have husages : usages (received h) = usages before := by
    rw [hr, usages, List.filterMap_append]
    exact List.append_nil _
  refine ⟨⟨ht.answered, ?_, ?_⟩, fun hw => ?_⟩
  · rw [hr, texts, List.filterMap_append]
    exact congrArg (· ++ [text]) ht.streamed
  · rw [husages]
    exact ht.bookings
  · rw [husages]
    exact hb hw

/-- A usage is booked as it arrives, whatever the booking comes back with. -/
theorem Arrived.usage {answerId : Uuid} {usage : Usage} {h : List AskEvent} {l : AskLocals}
    (ha : Arrived answerId (.usage usage) h l) (r : Except Err Unit) :
    let h' := h ++ [.performed (.db (.finalizeAnswer answerId usage false)) r]
    Tracked answerId (received h') h' l ∧ usages (received h') ≠ [] := by
  obtain ⟨before, hr, ht, -⟩ := ha
  intro h'
  have hr' : received h' = before ++ [.usage usage] := by
    rw [received_append, hr]
    exact List.append_nil _
  have husages : usages (received h') = usages before ++ [usage] := by
    rw [hr', usages, List.filterMap_append]
    rfl
  refine ⟨⟨ht.answered, ?_, ?_⟩, by rw [husages]; simp⟩
  · rw [hr', texts, List.filterMap_append]
    exact ht.streamed.trans (List.append_nil _).symm
  · rw [husages, List.map_append, ← ht.bookings]
    exact bookings_append _ _

/-- A booking that raised leaves nothing to say about the flag. -/
theorem spec_finalize (answerId : Uuid) (usage : Usage) :
    Spec (Arrived answerId (.usage usage)) (callDb (.finalizeAnswer answerId usage false)) fun h r l =>
      match r with
      | .ok _ => Tracked answerId (received h) h l ∧ usages (received h) ≠ []
      | .error _ => Billing answerId h l := by
  have hperform : Spec (Arrived answerId (.usage usage))
      (perform (AskOp.db (.finalizeAnswer answerId usage false)) : Ask (Except Err Unit)) fun h r l =>
        ∃ reply, r = .ok reply ∧ Tracked answerId (received h) h l ∧ usages (received h) ≠ [] ∧
          ∀ e, reply = .error e → ¬ WritesSucceed h := by
    refine spec_perform fun h l r ha => ⟨r, rfl, (ha.usage r).1, (ha.usage r).2, ?_⟩
    rintro e rfl hw
    exact absurd (hw _ (List.mem_append_right h List.mem_cons_self)) (by simp [failedWrite])
  refine spec_bind hperform (fun reply => ?_) ?_
  · match reply with
    | .ok () => exact spec_pure fun h l ⟨_, _, ht, hne, _⟩ => ⟨ht, hne⟩
    | .error e =>
      refine spec_raise fun h l ⟨reply, hr, ht, _, hw⟩ => ⟨ht, fun hw' => absurd hw' (hw e ?_)⟩
      exact (Except.ok.inj hr).symm
  · rintro h e l ⟨_, hr, -⟩
    cases hr

theorem spec_forward (env : Env) (answerId : Uuid) (contexts : List Context) (event : ProviderEvent) :
    Keeps (Billing answerId) (forward env answerId contexts event) := by
  have hI := billing_unmoved answerId
  refine spec_bind (spec_receive answerId event) (fun _ => ?_) fun h e l ha => absurd ha.1 (by simp)
  cases event with
  | token text =>
    refine spec_bind (R := fun h _ l => Billing answerId h l) (spec_assign fun h l ha => ha.2.token)
      (fun _ => keeps_send hI _) fun h e l hb => hb
  | usage usage =>
    refine spec_bind ((spec_finalize answerId usage).imp (fun h l ha => ha.2) fun h r l hq => hq)
      (fun _ => ?_) fun h e l hb => hb
    refine spec_bind (R := fun h _ l => Billing answerId h l) (spec_assign fun h l ⟨ht, hne⟩ => ?_)
      (fun _ => ?_) fun h e l hb => hb
    · exact ⟨⟨ht.answered, ht.streamed, ht.bookings⟩, fun _ => by simp [hne]⟩
    · refine spec_bind (R := fun h _ l => Billing answerId h l) (spec_locals fun h l hb => hb) (fun l => ?_)
        fun h e l hb => hb
      refine Keeps.bind ?_ fun _ => keeps_send hI _
      split
      · exact keeps_pure ()
      · exact keeps_audit hI _ _

/-- An assertion that only the arrival of an event touches. -/
def Deaf (I : List AskEvent → AskLocals → Prop) : Prop :=
  ∀ h l e, received? e = none → I h l → I (h ++ [e]) l

theorem Deaf.unmoved {I : List AskEvent → AskLocals → Prop} (hI : Deaf I) : Unmoved I :=
  fun h l e he hi => hI h l e he.2 hi

theorem Deaf.finalize {I : List AskEvent → AskLocals → Prop} (hI : Deaf I) (answerId : Uuid) (usage : Usage)
    (estimated : Bool) : Keeps I (callDb (.finalizeAnswer answerId usage estimated)) := by
  have hperform : Keeps I
      (perform (AskOp.db (.finalizeAnswer answerId usage estimated)) : Ask (Except Err Unit)) :=
    keeps_perform fun h l r => hI h l _ rfl
  refine hperform.bind fun r => ?_
  match r with
  | .ok a => exact keeps_pure a
  | .error e => exact keeps_raise _

theorem received_deaf (events : List ProviderEvent) : Deaf fun h _ => received h = events := by
  intro h l e he hr
  show received (h ++ [e]) = events
  rw [received_append, hr]
  simp [received, he]

/-- The body of the loop receives its event, and no other. -/
theorem spec_forward_received (env : Env) (answerId : Uuid) (contexts : List Context) (event : ProviderEvent)
    (before : List ProviderEvent) :
    Spec (fun h _ => received h = before) (forward env answerId contexts event)
      fun h _ _ => received h = before ++ [event] := by
  have hI := received_deaf (before ++ [event])
  refine spec_bind (R := fun h r _ => r = .ok () ∧ received h = before ++ [event])
    (spec_perform fun h l r hr => ⟨rfl, ?_⟩) (fun _ => ?_) fun h e l hr => absurd hr.1 (by simp)
  · rw [received_append, hr]
    rfl
  · refine Spec.imp (P := fun h _ => received h = before ++ [event]) ?_ (fun h l hr => hr.2) fun h r l hr => hr
    cases event with
    | token text => exact Keeps.bind (keeps_assign fun h l hr => hr) fun _ => keeps_send hI.unmoved _
    | usage usage =>
      refine (hI.finalize answerId usage false).bind fun _ => ?_
      refine Keeps.bind (keeps_assign fun h l hr => hr) fun _ => ?_
      refine Keeps.bind (spec_locals fun h l hr => hr) fun l => ?_
      refine Keeps.bind ?_ fun _ => keeps_send hI.unmoved _
      split
      · exact keeps_pure ()
      · exact keeps_audit hI.unmoved _ _

/-- What arrived is the beginning of what the provider had to say about some passages. -/
def Heard (req : Request) (h : List AskEvent) : Prop :=
  ∃ contexts, received h <+: (req.provider.stream req.question contexts).events

theorem heard_of_nil {req : Request} {h : List AskEvent} (hr : received h = []) : Heard req h :=
  ⟨[], by rw [hr]; exact List.nil_prefix⟩

theorem heard_deaf (req : Request) : Deaf fun h _ => Heard req h := by
  rintro h l e he ⟨contexts, hr⟩
  exact ⟨contexts, received_deaf (received h) h l e he rfl ▸ hr⟩

theorem spec_relay (req : Request) (answerId : Uuid) (contexts : List Context) :
    Spec (Untouched.For answerId) (relay req answerId contexts)
      fun h _ l => Billing answerId h l ∧ Heard req h := by
  have hloop : Spec (fun h l => Billing answerId h l ∧ received h ++
      (req.provider.stream req.question contexts).events = (req.provider.stream req.question contexts).events)
      (forEach (req.provider.stream req.question contexts).events (forward req.env answerId contexts))
      fun h _ l => Billing answerId h l ∧ Heard req h := by
    refine spec_forEach (I := fun xs h l => Billing answerId h l ∧
      received h ++ xs = (req.provider.stream req.question contexts).events)
      (fun x xs h l hi es r l' hpath => ?_)
      (fun h l hi => ⟨hi.1, contexts, by rw [← hi.2]; exact List.prefix_append _ _⟩) _
    obtain ⟨hb, hr⟩ := hi
    have hb' := spec_forward req.env answerId contexts x h l hb es r l' hpath
    have hr' := spec_forward_received req.env answerId contexts x (received h) h l rfl es r l' hpath
    rw [List.append_cons, ← hr'] at hr
    cases r with
    | ok u => exact ⟨hb', hr⟩
    | error e => exact ⟨hb', contexts, by rw [← hr]; exact List.prefix_append _ _⟩
  refine spec_bind (hloop.imp (fun h l hu => ⟨hu.billing, ?_⟩) fun h r l hq => hq) (fun _ => ?_)
    fun h e l hq => hq
  · rw [hu.1.received]
    rfl
  · split
    · exact spec_pure fun h l hq => hq
    · exact spec_raise fun h l hq => hq

/-! ## The whole stream -/

section Stream

variable (req : Request)

/-- The assertion at the end of the `try` statement: an answer was recorded before anything arrived. -/
def Served (h : List AskEvent) (l : AskLocals) : Prop :=
  Untouched h l ∨ ∃ answerId, Billing answerId h l ∧ Heard req h

theorem served_unmoved : Unmoved (Served req) := by
  rintro h l e he (hu | ⟨answerId, hb, hh⟩)
  · exact .inl (untouched_unmoved h l e he hu)
  · exact .inr ⟨answerId, billing_unmoved answerId h l e he hb, (heard_deaf req).unmoved h l e he hh⟩

theorem spec_answer : Spec Untouched (answer req) fun h _ l => Served req h l := by
  refine (keeps_search untouched_unmoved req).spec_bind (fun contexts => ?_) fun h e l hu => .inl hu
  refine spec_bind (R := fun h _ l => Untouched h l)
    (spec_assign fun h l hu => ⟨hu.bookings, hu.received, hu.streamed, hu.billed⟩) (fun _ => ?_)
    fun h e l hu => .inl hu
  refine spec_bind (spec_recordAnswer req contexts.isEmpty) (fun answerId => ?_) fun h e l hu => .inl hu
  have hI := untouched_for_unmoved answerId
  have hserved : ∀ h l, Untouched.For answerId h l → Served req h l := fun h l hu => .inl hu.1
  refine (keeps_audit hI _ _).spec_bind (fun _ => ?_) fun h e l hu => hserved h l hu
  refine Keeps.spec_bind ?_ (fun _ => ?_) fun h e l hu => hserved h l hu
  · split
    · exact keeps_pure ()
    · exact keeps_audit hI _ _
  refine (keeps_send hI _).spec_bind (fun _ => ?_) fun h e l hu => hserved h l hu
  split
  · exact (keeps_refuse hI).imp (fun h l hu => hu) fun h r l hu => hserved h l hu
  · refine Keeps.spec_bind ?_ (fun _ => ?_) fun h e l hu => hserved h l hu
    · split
      · exact (keeps_callDb hI .retrievalStats trivial).bind fun _ => keeps_pure ()
      · exact keeps_pure ()
    refine (keeps_send hI _).spec_bind (fun _ => ?_) fun h e l hu => hserved h l hu
    exact (spec_relay req answerId contexts).imp (fun h l hu => hu) fun h r l hb => .inr ⟨_, hb⟩

theorem spec_attempt : Spec Untouched (attempt req) fun h _ l => Served req h l := by
  refine (keeps_limitBlock untouched_unmoved req).spec_bind (fun reason => ?_) fun h e l hu => .inl hu
  cases reason with
  | some reason => exact (spec_blocked req reason).imp (fun h l hu => hu) fun h r l hu => .inl hu
  | none => exact spec_answer req

theorem keeps_onFailure {e : Exc} {k : Ask Unit} (h : onFailure e = some k) : Keeps (Served req) k := by
  have hhandler : Keeps (Served req) (do
      let reference ← tokenHex
      send (.error (failureMessage reference))) :=
    (keeps_tokenHex (served_unmoved req)).bind fun _ => keeps_send (served_unmoved req) _
  cases e with
  | generatorExit => exact absurd h (by simp [onFailure])
  | db e =>
    obtain rfl := Option.some.inj h
    exact hhandler
  | other repr =>
    obtain rfl := Option.some.inj h
    exact hhandler

end Stream

/-- What a stream books, given what reached it: nothing, or once, with the estimate flag telling whether
the provider had reported its usage. -/
structure BilledOnce (h : List AskEvent) : Prop where
  nothing : received h = [] → bookings h = []
  once : received h ≠ [] → ∃ answerId usage, bookings h = [(answerId, usage, (usages (received h)).isEmpty)]

theorem received_eq_nil_iff {events : List ProviderEvent} :
    events = [] ↔ texts events = [] ∧ usages events = [] := by
  cases events with
  | nil => simp [texts, usages]
  | cons event events => cases event <;> simp [texts, usages]

theorem Untouched.billedOnce {h : List AskEvent} {l : AskLocals} (hu : Untouched h l) : BilledOnce h :=
  ⟨fun _ => hu.bookings, fun hne => absurd hu.received hne⟩

/-- The `finally` block has nothing to book when the usage is booked or nothing was streamed. -/
theorem Billing.billedOnce {answerId : Uuid} {h : List AskEvent} {l : AskLocals} (hb : Billing answerId h l)
    (hw : WritesSucceed h) (hone : (usages (received h)).length ≤ 1)
    (hskip : (l.billed || l.streamed.isEmpty) = true) : BilledOnce h := by
  have hbilled := hb.billed hw
  have hstreamed := hb.tracked.streamed
  have hbook := hb.tracked.bookings
  cases husages : usages (received h) with
  | nil =>
    have hempty : l.streamed = [] := by simpa [hbilled, husages] using hskip
    have hr : received h = [] := received_eq_nil_iff.2 ⟨hstreamed ▸ hempty, husages⟩
    refine ⟨fun _ => ?_, fun hne => absurd hr hne⟩
    rw [hbook, husages]
    rfl
  | cons usage rest =>
    have hrest : rest = [] := by
      rw [husages, List.length_cons] at hone
      exact List.length_eq_zero_iff.1 (by omega)
    have hne : received h ≠ [] := fun hr => by simp [hr, usages] at husages
    refine ⟨fun hr => absurd hr hne, fun _ => ⟨answerId, usage, ?_⟩⟩
    rw [hbook, husages, hrest]
    rfl

/-- What the `finally` block books when tokens arrived and no usage was booked. -/
theorem Billing.estimate {answerId : Uuid} {h : List AskEvent} {l : AskLocals} (hb : Billing answerId h l)
    (hw : WritesSucceed h) (hskip : (l.billed || l.streamed.isEmpty) = false) (usage : Usage)
    (r : Except Err Unit) :
    BilledOnce (h ++ [.performed (.db (.finalizeAnswer answerId usage true)) r]) := by
  obtain ⟨hbilled, hstreamed⟩ := Bool.or_eq_false_iff.1 hskip
  have husages : usages (received h) = [] := by
    have := hb.billed hw
    rw [hbilled] at this
    simpa using this.symm
  have hreceived : received (h ++ [.performed (.db (.finalizeAnswer answerId usage true)) r]) =
      received h := by
    rw [received_append]
    exact List.append_nil _
  have hbook : bookings h = [] := by
    rw [hb.tracked.bookings, husages]
    rfl
  have hne : received h ≠ [] := by
    intro hr
    rw [hb.tracked.streamed, hr] at hstreamed
    exact absurd hstreamed (by simp [texts])
  refine ⟨fun hr => absurd (hreceived ▸ hr) hne, fun _ => ⟨answerId, usage, ?_⟩⟩
  rw [bookings_append, hbook, hreceived, husages]
  rfl

/-- The conclusion about a history, under what is assumed of it. -/
def Settled (h : List AskEvent) : Prop :=
  WritesSucceed h → (usages (received h)).length ≤ 1 → BilledOnce h

theorem spec_settle (req : Request) : Spec (Served req) (settle req) fun h _ _ => Settled h := by
  refine spec_bind (R := fun h r l => r = .ok l ∧ Served req h l) (spec_locals fun h l hs => ⟨rfl, hs⟩)
    (fun l₀ => ?_) fun h e l hs => absurd hs.1 (by simp)
  have hlocals : ∀ {h : List AskEvent} {l : AskLocals},
      ((Except.ok l₀ : Except Exc AskLocals) = .ok l ∧ Served req h l) → Served req h l₀ := by
    rintro h l ⟨he, hs⟩
    obtain rfl := Except.ok.inj he
    exact hs
  split
  · rename_i hnone
    refine spec_pure fun h l hs hw hone => ?_
    rcases hlocals hs with hu | ⟨answerId, hb, -⟩
    · exact hu.billedOnce
    · rw [hb.tracked.answered] at hnone
      cases hnone
  · rename_i answerId hsome
    by_cases hskip : (l₀.billed || l₀.streamed.isEmpty) = true
    · rw [if_pos hskip]
      refine spec_pure fun h l hs hw hone => ?_
      rcases hlocals hs with hu | ⟨answerId', hb, -⟩
      · exact hu.billedOnce
      · exact hb.billedOnce hw hone hskip
    · rw [if_neg hskip]
      have hskip' : (l₀.billed || l₀.streamed.isEmpty) = false := by simpa using hskip
      have hperform : Spec (fun h l => (Except.ok l₀ : Except Exc AskLocals) = .ok l ∧ Served req h l)
          (perform (AskOp.db (.finalizeAnswer answerId
            (req.provider.estimate req.question l₀.contexts (String.join l₀.streamed)) true)) :
            Ask (Except Err Unit)) fun h _ _ => Settled h := by
        refine spec_perform fun h l r hs hw hone => ?_
        rcases hlocals hs with hu | ⟨answerId', hb, -⟩
        · rw [hu.streamed] at hskip'
          simp at hskip'
        · obtain rfl : answerId' = answerId := Option.some.inj (hb.tracked.answered.symm.trans hsome)
          exact hb.estimate hw.left hskip' _ r
      refine spec_bind hperform (fun r => ?_) fun h e l hs => hs
      split
      · exact spec_pure fun h l hs => hs
      · exact spec_raise fun h l hs => hs

theorem heard_settle (req : Request) : Keeps (fun h _ => Heard req h) (settle req) := by
  have hI := heard_deaf req
  refine Keeps.bind (spec_locals fun h l hh => hh) fun l₀ => ?_
  split
  · exact keeps_pure ()
  · by_cases hskip : (l₀.billed || l₀.streamed.isEmpty) = true
    · rw [if_pos hskip]
      exact keeps_pure ()
    · rw [if_neg hskip]
      exact hI.finalize _ _ true

theorem spec_served (req : Request) :
    Spec (fun h l => h = [] ∧ l = {}) ((attempt req).tryExcept onFailure) fun h _ l => Served req h l := by
  have hbegin : ∀ h l, (h = [] ∧ l = ({} : AskLocals)) → Untouched h l := by
    rintro h l ⟨rfl, rfl⟩
    exact ⟨rfl, rfl, rfl, rfl⟩
  refine spec_tryExcept ((spec_attempt req).imp hbegin fun h r l hs => hs) (fun h a l hs => hs)
    (fun h e l _ hs => hs) fun e k hk => keeps_onFailure req hk

theorem Served.heard {req : Request} {h : List AskEvent} {l : AskLocals} (hs : Served req h l) :
    Heard req h := by
  rcases hs with hu | ⟨answerId, -, hh⟩
  · exact heard_of_nil hu.received
  · exact hh

/-- Whatever happens to a stream, it is billed once. -/
theorem settled_of_path {req : Request} {es : List AskEvent} {r : Except Exc Unit × AskLocals}
    (h : Gen.Path (start req) es r) : Settled es :=
  spec_tryFinally (Q := fun h _ _ => Settled h) (spec_served req) (fun _ => spec_settle req)
    [] {} ⟨rfl, rfl⟩ es r.1 r.2 h

/-- Whatever happens to a stream, what arrives is what its provider says. -/
theorem heard_of_path {req : Request} {es : List AskEvent} {r : Except Exc Unit × AskLocals}
    (h : Gen.Path (start req) es r) : Heard req es :=
  spec_tryFinally (Q := fun h _ _ => Heard req h) (spec_served req)
    (fun _ => (heard_settle req).imp (fun _ _ hs => hs.heard) fun _ _ _ hh => hh)
    [] {} ⟨rfl, rfl⟩ es r.1 r.2 h

end KnowledgeDesk.Proofs
