import KnowledgeDesk.Proofs.AskChecksProofs
import KnowledgeDesk.Proofs.ProtocolProofs

/-!
# The answer that a stream has open

A stream of one of the repository's providers opens one answer at most, and blocks and books no other: when
it comes to do so, that one is open.
-/

namespace KnowledgeDesk.Proofs

open Assistant Providers Stmt AskStreams

variable {h : List AskEvent} {answerId : Uuid}

/-! ## The events -/

theorem openAnswer_snoc (h : List AskEvent) (e : AskEvent) :
    openAnswer (h ++ [e]) = opened (openAnswer h) e := by
  unfold openAnswer
  rw [List.foldl_append, List.foldl_cons, List.foldl_nil]

/-- What a stream has open when it comes to an operation. -/
def OpenFor (h : List AskEvent) : AskOp → Prop
  | .db (.recordAnswer ..) => openAnswer h = none
  | .db (.markBlocked answerId) | .db (.finalizeAnswer answerId ..) => openAnswer h = some answerId
  | _ => True

/-- An operation that writes no answer. -/
def Aside : AskOp → Prop
  | .db (.recordAnswer ..) | .db (.markBlocked _) | .db (.finalizeAnswer ..) => False
  | _ => True

theorem Idle.aside {o : AskOp} (ho : Idle o) : Aside o := by
  unfold Idle at ho
  unfold Aside
  split <;> simp_all

theorem Aside.openFor {o : AskOp} (ho : Aside o) : OpenFor h o := by
  unfold Aside at ho
  unfold OpenFor
  split <;> simp_all

theorem Aside.opened {o : AskOp} (ho : Aside o) (answer : Option Uuid) (r : o.Reply) :
    AskStreams.opened answer (.performed o r) = answer := by
  unfold AskStreams.opened
  split
  case h_4 => rfl
  all_goals
    rename_i he
    cases he
    exact ho.elim

/-! ## The phases of an ask -/

/-- Whatever the ask has done, it had open what that takes. -/
abbrev WellOpened (h : List AskEvent) : Prop := Gen.Each OpenFor h

/-- Nothing is recorded, and nothing has arrived. -/
structure Unopened (h : List AskEvent) (l : AskLocals) : Prop where
  ordered : WellOpened h
  none_open : openAnswer h = none
  unanswered : l.answerId = none
  streamed : l.streamed = []
  billed : l.billed = false

/-- There is nothing to book. -/
def Bookless (h : List AskEvent) (l : AskLocals) : Prop := WellOpened h ∧ l.streamed = []

/-- The answer is recorded, and open until it is billed. -/
structure Holding (answerId : Uuid) (h : List AskEvent) (l : AskLocals) : Prop where
  ordered : WellOpened h
  answered : l.answerId = some answerId
  unbilled : l.billed = false → openAnswer h = some answerId

/-- What holds when the `try` statement is over. -/
def Closable (h : List AskEvent) (l : AskLocals) : Prop := Bookless h l ∨ ∃ answerId, Holding answerId h l

/-- The answer is held, and is unbilled where there are usages to come, which is one at most. -/
structure Relaying (answerId : Uuid) (events : List ProviderEvent) (h : List AskEvent) (l : AskLocals) : Prop where
  holding : Holding answerId h l
  unbilled : usages events ≠ [] → l.billed = false
  once : (usages events).length ≤ 1

/-- An assertion that no idle operation, no retrieving and no `yield` touches. -/
structure Still (I : List AskEvent → AskLocals → Prop) : Prop where
  performed : ∀ {h l o r}, Aside o → I h l → I (h ++ [.performed o r]) l
  yielded : ∀ {h l}, I h l → ∀ f s, I (h ++ [.yielded f s]) l

theorem Still.steady {I : List AskEvent → AskLocals → Prop} (hI : Still I) : Steady I :=
  ⟨fun ho hi => hI.performed ho.aside hi, hI.yielded⟩

theorem unopened_still : Still Unopened where
  performed {h l o r} ho hu :=
    ⟨hu.ordered.performed ho.openFor, by rw [openAnswer_snoc, ho.opened, hu.none_open], hu.unanswered,
      hu.streamed, hu.billed⟩
  yielded {h l} hu f s :=
    ⟨hu.ordered.yielded f s, by rw [openAnswer_snoc]; exact hu.none_open, hu.unanswered, hu.streamed, hu.billed⟩

theorem bookless_still : Still Bookless where
  performed ho hb := ⟨hb.1.performed ho.openFor, hb.2⟩
  yielded hb f s := ⟨hb.1.yielded f s, hb.2⟩

theorem holding_still (answerId : Uuid) : Still (Holding answerId) where
  performed {h l o r} ho hh :=
    ⟨hh.ordered.performed ho.openFor, hh.answered, fun hb => by rw [openAnswer_snoc, ho.opened, hh.unbilled hb]⟩
  yielded {h l} hh f s :=
    ⟨hh.ordered.yielded f s, hh.answered, fun hb => by rw [openAnswer_snoc]; exact hh.unbilled hb⟩

theorem relaying_still (answerId : Uuid) (events : List ProviderEvent) : Still (Relaying answerId events) where
  performed ho hr := ⟨(holding_still answerId).performed ho hr.holding, hr.unbilled, hr.once⟩
  yielded hr f s := ⟨(holding_still answerId).yielded hr.holding f s, hr.unbilled, hr.once⟩

theorem closable_still : Still Closable where
  performed ho hc := hc.imp (fun hb => bookless_still.performed ho hb)
    (Exists.imp fun answerId hh => (holding_still answerId).performed ho hh)
  yielded hc f s := hc.imp (fun hb => bookless_still.yielded hb f s)
    (Exists.imp fun answerId hh => (holding_still answerId).yielded hh f s)

theorem Unopened.bookless {l : AskLocals} (hu : Unopened h l) : Bookless h l := ⟨hu.ordered, hu.streamed⟩

/-! ## The statements of an ask -/

section Statements

variable (req : Request)

theorem Steady.limitBlock {I : List AskEvent → AskLocals → Prop} (hI : Steady I) :
    Keeps I (Assistant.limitBlock req) := by
  refine (hI.callDb .spendLast24h trivial).bind fun spend => ?_
  split
  · exact keeps_pure _
  refine (hI.callDb .questionsThisMonth trivial).bind fun questions => ?_
  split
  · exact keeps_pure _
  refine (hI.callDb .platformSpendToday trivial).bind fun platform => ?_
  split
  · exact keeps_pure _
  · exact keeps_pure _

/-- Recording opens the answer. -/
theorem spec_opening (refused : Bool) : Spec Unopened (Assistant.recordAnswer req refused) fun h r l =>
    Bookless h l ∧ ∀ answerId, r = .ok answerId →
      Holding answerId h l ∧ openAnswer h = some answerId ∧ l.billed = false := by
  refine spec_bind (R := fun h r l => Bookless h l ∧ l.billed = false ∧
    ∀ answerId, r = .ok answerId → openAnswer h = some answerId)
    (spec_callDb (fun h l answerId hu => ?_) fun h l e hu => ?_) (fun answerId => ?_)
    fun h e l hq => ⟨hq.1, fun _ he => absurd he (by simp)⟩
  · refine ⟨⟨hu.ordered.performed hu.none_open, hu.streamed⟩, hu.billed, fun answerId' he => ?_⟩
    rw [openAnswer_snoc, ← Except.ok.inj he]
    rfl
  · exact ⟨⟨hu.ordered.performed hu.none_open, hu.streamed⟩, hu.billed, fun _ he => absurd he (by simp)⟩
  · refine spec_bind (R := fun h _ l => Bookless h l ∧ Holding answerId h l ∧ openAnswer h = some answerId ∧
      l.billed = false) (spec_assign fun h l hq => ?_) (fun _ => spec_pure fun h l hq => ?_)
      fun h e l hq => ⟨hq.1, fun _ he => absurd he (by simp)⟩
    · obtain ⟨hb, hbilled, hopen⟩ := hq
      exact ⟨hb, ⟨hb.1, rfl, fun _ => hopen answerId rfl⟩, hopen answerId rfl, hbilled⟩
    · refine ⟨hq.1, fun answerId' he => ?_⟩
      rw [← Except.ok.inj he]
      exact hq.2

theorem spec_blocking (reason : String) : Spec Unopened (blocked req reason) fun h _ l => Bookless h l := by
  have hI : Steady Bookless := bookless_still.steady
  refine spec_bind (spec_opening req false) (fun answerId => ?_) fun h e l hq => hq.1
  have hblock : Spec (fun h l => Bookless h l ∧ openAnswer h = some answerId) (callDb (.markBlocked answerId))
      fun h _ l => Bookless h l :=
    spec_callDb (fun h l _ hb => ⟨hb.1.1.performed hb.2, hb.1.2⟩) fun h l _ hb => ⟨hb.1.1.performed hb.2, hb.1.2⟩
  refine spec_bind (hblock.imp (fun h l hq => ⟨hq.1, (hq.2 answerId rfl).2.1⟩) fun h r l hb => hb) (fun _ => ?_)
    fun h e l hb => hb
  exact (hI.audit _ _).bind fun _ => (hI.send _).bind fun _ => hI.send _

/-- A usage is booked while the answer is open, which closes it. -/
theorem spec_usage (env : Env) (contexts : List Context) (usage : Usage) {events : List ProviderEvent}
    (hnone : usages events = []) :
    Spec (fun h l => Holding answerId h l ∧ l.billed = false) (complete env answerId contexts usage)
      fun h r l => match r with
        | .ok () => Relaying answerId events h l
        | .error _ => Holding answerId h l := by
  have hrelaying : ∀ h l, Holding answerId h l → Relaying answerId events h l := fun h l hh =>
    ⟨hh, fun hne => absurd hnone hne, by rw [hnone]; exact Nat.zero_le 1⟩
  have hI : Steady (Holding answerId) := (holding_still answerId).steady
  refine spec_bind (R := fun h r l => WellOpened h ∧ l.answerId = some answerId ∧
    ∀ e, r = .error e → Holding answerId h l)
    (spec_callDb (fun h l u hh => ?_) fun h l e hh => ?_) (fun _ => ?_) fun h e l hq => hq.2.2 e rfl
  · obtain ⟨hh, hbilled⟩ := hh
    exact ⟨hh.ordered.performed (hh.unbilled hbilled), hh.answered, fun _ he => absurd he (by simp)⟩
  · obtain ⟨hh, hbilled⟩ := hh
    have hordered : WellOpened (h ++ [.performed (.db (.finalizeAnswer answerId usage false)) (.error e)]) :=
      hh.ordered.performed (hh.unbilled hbilled)
    refine ⟨hordered, hh.answered, fun _ _ => ⟨hordered, hh.answered, fun hb => ?_⟩⟩
    rw [openAnswer_snoc]
    exact hh.unbilled hb
  · have hrest : Spec (Holding answerId) (do
        let l ← locals
        let warnings := OutputChecks.checkAnswer env (String.join l.streamed).toList contexts
        (if warnings.isEmpty then pure () else
          Assistant.audit "answer.flagged" [("answer_id", .str (toString answerId)),
            ("codes", .str (",".intercalate (warnings.map (·.code))))])
        send (.done usage.inputTokens usage.outputTokens usage.costUsd warnings) : Ask Unit)
        fun h _ l => Holding answerId h l := by
      refine Keeps.bind (spec_locals fun h l hh => hh) fun l => Keeps.bind ?_ fun _ => hI.send _
      split
      · exact keeps_pure ()
      · exact hI.audit _ _
    refine spec_bind (R := fun h _ l => Holding answerId h l)
      (spec_assign fun h l hq => ⟨hq.1, hq.2.1, fun hb => absurd hb (by simp)⟩) (fun _ => ?_) fun h e l hh => hh
    refine hrest.imp (fun h l hh => hh) fun h r l hh => ?_
    cases r with
    | ok u => exact hrelaying h l hh
    | error e => exact hh

theorem spec_event (env : Env) (contexts : List Context) (event : ProviderEvent) (events : List ProviderEvent) :
    Spec (Relaying answerId (event :: events)) (forward env answerId contexts event) fun h r l => match r with
      | .ok () => Relaying answerId events h l
      | .error _ => Holding answerId h l := by
  refine ((relaying_still answerId (event :: events)).steady.receive event).spec_bind (fun _ => ?_)
    fun h e l hr => hr.holding
  cases event with
  | token text =>
    have hI : Steady (Relaying answerId events) := (relaying_still answerId events).steady
    have hpass : Keeps (Relaying answerId events) (passOn text) :=
      Keeps.bind (keeps_assign fun h l hr => ⟨⟨hr.holding.ordered, hr.holding.answered, hr.holding.unbilled⟩,
        hr.unbilled, hr.once⟩) fun _ => hI.send _
    refine hpass.imp (fun h l hr => ⟨hr.holding, hr.unbilled, hr.once⟩) fun h r l hr => ?_
    cases r with
    | ok u => exact hr
    | error e => exact hr.holding
  | usage usage =>
    intro h l hr
    have hcons : usages (.usage usage :: events) = usage :: usages events := rfl
    have hnone : usages events = [] := by
      have hone := hr.once
      rw [hcons, List.length_cons] at hone
      exact List.length_eq_zero_iff.1 (by omega)
    have hbilled : l.billed = false := hr.unbilled (by rw [hcons]; simp)
    exact spec_usage env contexts usage hnone h l ⟨hr.holding, hbilled⟩

theorem spec_relaying (contexts : List Context)
    (hone : (usages (req.provider.stream req.question contexts).events).length ≤ 1) :
    Spec (fun h l => Holding answerId h l ∧ l.billed = false) (relay req answerId contexts)
      fun h _ l => Holding answerId h l := by
  have hloop : Spec (Relaying answerId (req.provider.stream req.question contexts).events)
      (forEach (req.provider.stream req.question contexts).events (forward req.env answerId contexts))
      fun h _ l => Holding answerId h l :=
    spec_forEach (I := Relaying answerId)
      (fun event events => (spec_event req.env contexts event events).imp (fun h l hr => hr) fun h r l hq => by
        cases r <;> exact hq)
      (fun h l hr => hr.holding) _
  refine spec_bind (hloop.imp (fun h l hh => ⟨hh.1, fun _ => hh.2, hone⟩) fun h r l hh => hh) (fun _ => ?_)
    fun h e l hh => hh
  split
  · exact spec_pure fun h l hh => hh
  · exact spec_raise fun h l hh => hh

theorem spec_answering (hone : ∀ contexts, (usages (req.provider.stream req.question contexts).events).length ≤ 1) :
    Spec Unopened (answer req) fun h _ l => Closable h l := by
  have hsearch : Keeps Unopened (Assistant.search req) := by
    unfold Assistant.search
    split
    · exact keeps_raise _
    · exact spec_callDb (fun h l _ hu => unopened_still.performed trivial hu)
        fun h l _ hu => unopened_still.performed trivial hu
  refine hsearch.spec_bind (fun contexts => ?_) fun h e l hu => .inl hu.bookless
  refine spec_bind (R := fun h _ l => Unopened h l)
    (spec_assign fun h l hu => ⟨hu.ordered, hu.none_open, hu.unanswered, hu.streamed, hu.billed⟩) (fun _ => ?_)
    fun h e l hu => .inl hu.bookless
  refine spec_bind (spec_opening req contexts.isEmpty) (fun answerId => ?_) fun h e l hq => .inl hq.1
  -- the answer is held from here on, and unbilled until the provider is relayed
  have hheld : Still fun h l => Holding answerId h l ∧ l.billed = false :=
    ⟨fun ho hh => ⟨(holding_still answerId).performed ho hh.1, hh.2⟩,
      fun hh f s => ⟨(holding_still answerId).yielded hh.1 f s, hh.2⟩⟩
  have hI := hheld.steady
  refine Spec.imp (P := fun h l => Holding answerId h l ∧ l.billed = false) (Q := fun h _ l => Holding answerId h l)
    ?_ (fun h l hq => ?_) fun h r l hh => .inr ⟨answerId, hh⟩
  · refine (hI.audit _ _).spec_bind (fun _ => ?_) fun h e l hh => hh.1
    refine Keeps.spec_bind ?_ (fun _ => ?_) fun h e l hh => hh.1
    · split
      · exact keeps_pure ()
      · exact hI.audit _ _
    refine (hI.send _).spec_bind (fun _ => ?_) fun h e l hh => hh.1
    split
    · exact hI.refuse.imp (fun h l hh => hh) fun h r l hh => hh.1
    · refine Keeps.spec_bind ?_ (fun _ => ?_) fun h e l hh => hh.1
      · split
        · exact (hI.callDb .retrievalStats trivial).bind fun _ => keeps_pure ()
        · exact keeps_pure ()
      refine (hI.send _).spec_bind (fun _ => ?_) fun h e l hh => hh.1
      exact spec_relaying req contexts (hone contexts)
  · obtain ⟨hh, -, hbilled⟩ := hq.2 answerId rfl
    exact ⟨hh, hbilled⟩

theorem spec_closable (hone : ∀ contexts, (usages (req.provider.stream req.question contexts).events).length ≤ 1) :
    Spec (fun h l => h = [] ∧ l = {}) ((attempt req).tryExcept onFailure) fun h _ l => Closable h l := by
  have hattempt : Spec Unopened (attempt req) fun h _ l => Closable h l := by
    refine (unopened_still.steady.limitBlock req).spec_bind (fun reason => ?_) fun h e l hu => .inl hu.bookless
    cases reason with
    | some reason => exact (spec_blocking req reason).imp (fun h l hu => hu) fun h r l hb => .inl hb
    | none => exact spec_answering req hone
  have hbegin : ∀ h l, (h = [] ∧ l = ({} : AskLocals)) → Unopened h l := by
    rintro h l ⟨rfl, rfl⟩
    exact ⟨Gen.each_nil, rfl, rfl, rfl, rfl⟩
  refine spec_tryExcept (hattempt.imp hbegin fun h r l hc => hc) (fun h a l hc => hc) (fun h e l _ hc => hc)
    fun e k hk => ?_
  have hI : Steady Closable := closable_still.steady
  have hhandler : Keeps Closable (do
      let reference ← tokenHex
      send (.error (failureMessage reference))) := hI.tokenHex.bind fun _ => hI.send _
  cases e with
  | generatorExit => cases hk
  | db e =>
    obtain rfl := Option.some.inj hk
    exact hhandler
  | other repr =>
    obtain rfl := Option.some.inj hk
    exact hhandler

/-- The `finally` block books an answer that is open. -/
theorem spec_closing : Spec Closable (settle req) fun h _ _ => WellOpened h := by
  have hordered : ∀ h l, Closable h l → WellOpened h := by
    rintro h l (hb | ⟨answerId, hh⟩)
    · exact hb.1
    · exact hh.ordered
  refine spec_bind (R := fun h r l => r = .ok l ∧ Closable h l) (spec_locals fun h l hc => ⟨rfl, hc⟩)
    (fun l₀ => ?_) fun h e l hc => hordered h l hc.2
  split
  · exact spec_pure fun h l hc => hordered h l hc.2
  rename_i answerId hanswer
  by_cases hskip : (l₀.billed || l₀.streamed.isEmpty) = true
  · rw [if_pos hskip]
    exact spec_pure fun h l hc => hordered h l hc.2
  rw [if_neg hskip]
  have hbook : ∀ h l r, ((Except.ok l₀ : Except Exc AskLocals) = .ok l ∧ Closable h l) →
      WellOpened (h ++ [.performed (.db (.finalizeAnswer answerId
        (req.provider.estimate req.question l₀.contexts (String.join l₀.streamed)) true)) r]) := by
    rintro h l r ⟨he, hc⟩
    obtain rfl := Except.ok.inj he
    obtain ⟨hbilled, hstreamed⟩ := Bool.or_eq_false_iff.1 (Bool.not_eq_true _ ▸ hskip)
    rcases hc with hb | ⟨answerId', hh⟩
    · rw [hb.2] at hstreamed
      cases hstreamed
    · obtain rfl : answerId' = answerId := Option.some.inj (hh.answered.symm.trans hanswer)
      exact hh.ordered.performed (hh.unbilled hbilled)
  exact spec_callDb (fun h l _ hc => hbook h l _ hc) fun h l _ hc => hbook h l _ hc

end Statements

/-- When a stream comes to an operation, it has open what that takes. -/
theorem openFor_of_reaches {req : Request} {es : List AskEvent} {o : AskOp} {k : o.Reply → AskGen}
    (hone : ∀ contexts, (usages (req.provider.stream req.question contexts).events).length ≤ 1)
    (h : Gen.Reaches (start req) es (.perform o k)) : OpenFor es o := by
  refine Gen.Each.of_reaches reply_nonempty (fun es r hpath => ?_) h
  exact spec_tryFinally (Q := fun h _ _ => WellOpened h) (spec_closable req hone) (fun _ => spec_closing req)
    [] {} ⟨rfl, rfl⟩ es r.1 r.2 hpath

/-- A provider of the repository reports its usage once at most. -/
theorem usages_le_one {provider : AnswerProvider} (h : RepositoryProvider provider) (question : String)
    (contexts : List Context) : (usages (provider.stream question contexts).events).length ≤ 1 := by
  have htokens : ∀ texts : List String, usages (texts.map ProviderEvent.token) = [] := by
    intro texts
    rw [usages, List.filterMap_map]
    exact List.filterMap_eq_nil_iff.2 fun _ _ => rfl
  obtain ⟨texts, ⟨exc, hrun⟩ | ⟨usage, raised, hrun⟩⟩ := repositoryProvider_cases h question contexts
  · rw [hrun, htokens]
    exact Nat.zero_le 1
  · rw [hrun, usages, List.filterMap_append, ← usages, htokens]
    exact le_refl 1

end KnowledgeDesk.Proofs
