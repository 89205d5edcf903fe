import KnowledgeDesk.Proofs.AskAccountsProofs

/-!
# The caps of an org

`_limit_block` reads the org's questions and spend in transactions of their own, and the answer's row and
its cost are written later. An ask keeps the caps unless others have meanwhile used up what its check had
found left; the answer of one that is stopped counts from its record to its mark.
-/

open Table

namespace KnowledgeDesk.Proofs

open Assistant Providers Stmt AskStreams

variable {env : Env} {org : Uuid}

/-! ## Asks in time -/

/-- The caller of a started stream, and the operation it has come to. -/
def pending (a : AskStreams) (i : Nat) : Option (AuthContext × AskOp) :=
  match a.streams i with
  | some ⟨ctx, _, true, .perform o _⟩ => some (ctx, o)
  | _ => none

/-- The operation records an answer. -/
def recordsAnswer : AskOp → Bool
  | .db (.recordAnswer ..) => true
  | _ => false

/-- The operation books the cost of an answer. -/
def booksAnswer : AskOp → Bool
  | .db (.finalizeAnswer ..) => true
  | _ => false

/-- The clock does not go back, and no ask of the org writes after others have used up what its check has found
left: one that its check has let through does not record its answer then, and none books its cost then. -/
def Unhurried (settings : Settings) (org : Uuid) (a : AskStreams) : AskStreams.Label → Prop
  | .ask .. => True
  | .resume _ now _ => ClockAt a now
  | .perform i now fault _ => ClockAt a now ∧ (fault = none → ∀ p ∈ pending a i, p.1.orgId = org →
    (recordsAnswer p.2 = true → searched (a.history i) = true → ¬ Outrun settings org a i) ∧
    (booksAnswer p.2 = true → ¬ Outspent settings org a i))

/-- An ask of the org that its check has stopped records its answer, which it marks as blocked only then,
in a month that has room for it. -/
def StopsWithRoom (settings : Settings) (org : Uuid) (a : AskStreams) : AskStreams.Label → Prop
  | .perform i now none _ => ∀ p ∈ pending a i, p.1.orgId = org → recordsAnswer p.2 = true →
    searched (a.history i) = false → unblockedInMonth org now a.db < settings.monthlyQuestionCap
  | _ => True

instance (settings : Settings) (a : AskStreams) : ∀ l, Decidable (Unhurried settings org a l)
  | .ask .. => inferInstanceAs (Decidable True)
  | .resume _ now _ => inferInstanceAs (Decidable (ClockAt a now))
  | .perform _ now fault _ => inferInstanceAs (Decidable (ClockAt a now ∧ (fault = none → ∀ p ∈ pending a _, _)))

instance (settings : Settings) (a : AskStreams) : ∀ l, Decidable (StopsWithRoom settings org a l)
  | .ask .. => inferInstanceAs (Decidable True)
  | .resume .. => inferInstanceAs (Decidable True)
  | .perform _ _ (some _) _ => inferInstanceAs (Decidable True)
  | .perform i _ none _ => inferInstanceAs (Decidable (∀ p ∈ pending a i, _))

/-! ## The caps -/

/-- The answer was recorded by an ask that its check has stopped: one that retrieves nothing. -/
def stopped (a : AskStreams) (answerId : Uuid) : Bool :=
  a.log.any fun x => recordedId? x.event == some answerId && !searched (a.history x.stream)

/-- The org's unblocked answers of the month of `now` whose asks have been stopped: the answers are recorded, and
not marked as blocked yet. -/
def unmarkedInMonth (org : Uuid) (now : Time) (a : AskStreams) : Nat := selectedInMonth (stopped a) org now a.db

section Caps

variable {a : AskStreams} {l : AskStreams.Label} {x : AskEntry} {s : AskStream}

theorem unblockedInMonth_eq (g : Uuid → Bool) (org : Uuid) (now : Time) (db : Db) :
    unblockedInMonth org now db =
      selectedInMonth (fun answerId => !g answerId) org now db + selectedInMonth g org now db := by
  rw [unblockedInMonth, selectedInMonth, selectedInMonth]
  induction db.answers with
  | nil => rfl
  | cons b answers ih =>
    rw [List.countP_cons, List.countP_cons, List.countP_cons, ih]
    cases countsInMonth org now b <;> cases g b.id <;> simp <;> omega

/-- A step that logs an event changes of the stopped asks at most the one whose answer it records. -/
theorem Accounted.stopped_logged (h : Accounted env org a) (hx : Logged env a l x s) (answerId : Uuid) :
    stopped (AskStreams.step env a l) answerId =
      (stopped a answerId || recordedId? x.event == some answerId && !searched (a.history x.stream)) := by
  have hhistory : ∀ j, (AskStreams.step env a l).history j =
      a.history j ++ if x.stream = j then [x.event] else [] := by
    intro j
    rw [history, history, hx.log, List.filter_append, List.map_append]
    by_cases hj : x.stream = j
    · simp [hj]
    · simp [hj]
  have hsearch : isSearch x.event = true → Unrecorded (a.history x.stream) := by
    intro hsearch
    rcases hx.event with ⟨signal, f, -, he⟩ | ⟨fault, reference, o, k, -, hst, hr, he⟩
    · rw [he] at hsearch
      cases hsearch
    · rw [he] at hsearch
      have hready := h.ready hx.stream hst hr
      unfold isSearch at hsearch
      split at hsearch
      · rename_i heq
        cases heq
        exact hready
      · cases hsearch
  have hsame : ∀ y ∈ a.log ++ [x], recordedId? y.event = some answerId →
      searched ((AskStreams.step env a l).history y.stream) = searched (a.history y.stream) := by
    intro y hy hid
    rw [hhistory]
    by_cases hyx : x.stream = y.stream
    · rw [if_pos hyx, searched, List.any_append, searched]
      cases hx' : isSearch x.event with
      | false => simp [hx']
      | true =>
        rcases List.mem_append.1 hy with hy | hy
        · have hnone := hsearch hx' y.event (List.mem_map_of_mem (List.mem_filter.2 ⟨hy, by simp [hyx]⟩))
          rw [hid] at hnone
          cases hnone
        · rw [List.mem_singleton.1 hy] at hid
          unfold isSearch at hx'
          split at hx'
          · rename_i heq
            rw [heq] at hid
            cases hid
          · cases hx'
    · rw [if_neg hyx, List.append_nil]
  have hany : ∀ log : List AskEntry, (∀ y ∈ log, y ∈ a.log ++ [x]) →
      (log.any fun y => recordedId? y.event == some answerId &&
        !searched ((AskStreams.step env a l).history y.stream)) =
        log.any fun y => recordedId? y.event == some answerId && !searched (a.history y.stream) := by
    intro log hlog
    rw [Bool.eq_iff_iff, List.any_eq_true, List.any_eq_true]
    refine exists_congr fun y => and_congr_right fun hy => ?_
    by_cases hid : recordedId? y.event = some answerId
    · rw [hsame y (hlog y hy) hid]
    · simp [hid]
  rw [stopped, hx.log, hany _ fun y hy => hy, List.any_append, stopped]
  simp

/-- An answer is recorded by a stream that has come to that, and whose call does not raise. -/
theorem Logged.recording (hx : Logged env a l x s) {answerId : Uuid} (h : recordedId? x.event = some answerId) :
    ∃ reference question provider refused k, l = .perform x.stream x.now none reference ∧ s.started = true ∧
      s.rest = .perform (.db (.recordAnswer question provider refused)) k := by
  rcases hx.event with ⟨signal, f, -, he⟩ | ⟨fault, reference, o, k, hl, hst, hr, he⟩
  · rw [he] at h
    cases h
  · rw [he] at h
    cases o with
    | db call =>
      cases call with
      | recordAnswer question provider refused =>
        cases fault with
        | none => exact ⟨reference, question, provider, refused, k, hl, hst, hr⟩
        | some e => cases h
      | _ => cases h
    | _ => cases h

/-- A cost is booked by a stream that has come to that, and whose call does not raise. -/
theorem Logged.booking (hx : Logged env a l x s) {answerId : Uuid} {usage : Usage} {estimated : Bool}
    (h : x.event = .performed (.db (.finalizeAnswer answerId usage estimated)) (.ok ())) :
    ∃ reference k, l = .perform x.stream x.now none reference ∧ s.started = true ∧
      s.rest = .perform (.db (.finalizeAnswer answerId usage estimated)) k := by
  rcases hx.event with ⟨signal, f, -, he⟩ | ⟨fault, reference, o, k, hl, hst, hr, he⟩
  · rw [he] at h
    cases h
  · rw [he] at h
    obtain ⟨rfl, hreply⟩ := Gen.Event.performed.inj h
    cases fault with
    | none => exact ⟨reference, k, hl, hst, hr⟩
    | some e => cases eq_of_heq hreply

theorem pending_eq {o : AskOp} {k : o.Reply → AskGen} {i : Nat} (hs : a.streams i = some s)
    (hst : s.started = true) (hr : s.rest = .perform o k) : pending a i = some (s.ctx, o) := by
  obtain ⟨ctx, req, started, rest⟩ := s
  obtain rfl : started = true := hst
  obtain rfl : rest = .perform o k := hr
  simp only [pending, hs]

theorem unblockedInMonth_congr {now month : Time} (h : dateTruncMonth now = dateTruncMonth month) (db : Db) :
    unblockedInMonth org now db = unblockedInMonth org month db := by
  refine List.countP_congr fun b _ => ?_
  rw [countsInMonth, countsInMonth, h]

/-- An unhurried step leaves the answers of the asks that were let through within the month's cap. -/
theorem Accounted.answered_logged (h : Accounted env org a) (hx : Logged env a l x s)
    (hl : Unhurried env.settings org a l) {month : Time}
    (hcap : selectedInMonth (fun answerId => !stopped a answerId) org month a.db ≤
      env.settings.monthlyQuestionCap) :
    selectedInMonth (fun answerId => !stopped (AskStreams.step env a l) answerId) org month
      (AskStreams.step env a l).db ≤ env.settings.monthlyQuestionCap := by
  rcases hx.write.month org (fun answerId => !stopped (AskStreams.step env a l) answerId) month with
    hle | ⟨hrec, horg, hmonth, hnew, heq⟩
  · refine hle.trans (le_trans (List.countP_mono_left fun b _ hb => ?_) hcap)
    simp only [Bool.and_eq_true, Bool.not_eq_true', h.stopped_logged hx, Bool.or_eq_false_iff] at hb ⊢
    exact ⟨hb.1, hb.2.1⟩
  · -- the new answer is one of an ask that was let through
    have hsearched : searched (a.history x.stream) = true := by
      simp only [h.stopped_logged hx, hrec, Bool.not_eq_true', Bool.or_eq_false_iff, beq_self_eq_true,
        Bool.true_and, Bool.not_eq_false'] at hnew
      exact hnew.2
    obtain ⟨reference, question, provider, refused, k, rfl, hst, hr⟩ := hx.recording hrec
    have hcond := (hl.2 rfl _ (pending_eq hx.stream hst hr) horg).1 rfl hsearched
    have hi : ofOrg org a x.stream = true := by
      rw [Proofs.ofOrg, hx.stream, Option.any_some, horg]
      exact beq_self_eq_true org
    have hroom := h.room_in_month hl.1 hi (h.ready hx.stream hst hr hsearched) hcond
    rw [heq]
    refine Nat.lt_of_le_of_lt ?_ hroom
    rw [unblockedInMonth_congr hmonth]
    exact selectedInMonth_le _ month

/-- An unhurried step leaves the spend within the budget. -/
theorem Accounted.spend_step (h : Accounted env org a) (hx : Logged env a l x s)
    (hl : Unhurried env.settings org a l) (hb : SpendWithinBudget env.settings org a.db) :
    SpendWithinBudget env.settings org (AskStreams.step env a l).db := by
  refine hx.write.spendWithinBudget h.ids.nodup hb fun answerId usage estimated he horg b hmem hid till hin => ?_
  obtain ⟨reference, k, rfl, hst, hr⟩ := hx.booking he
  have hcond := (hl.2 rfl _ (pending_eq hx.stream hst hr) horg).2 rfl
  have hi : ofOrg org a x.stream = true := by
    rw [Proofs.ofOrg, hx.stream, Option.any_some, horg]
    exact beq_self_eq_true org
  obtain ⟨hthrough, hrecorded⟩ := h.ready hx.stream hst hr
  exact h.room_in_24h hi hthrough hrecorded hcond hmem hid hin

/-- A step that is unhurried, and that records a stopped ask only while there is room, leaves the month within
its cap. -/
theorem Accounted.month_logged (h : Accounted env org a) (hx : Logged env a l x s)
    (hl : Unhurried env.settings org a l) (hstop : StopsWithRoom env.settings org a l) {month : Time}
    (hcap : unblockedInMonth org month a.db ≤ env.settings.monthlyQuestionCap) :
    unblockedInMonth org month (AskStreams.step env a l).db ≤ env.settings.monthlyQuestionCap := by
  have hmonth := hx.write.month org (fun _ => true) month
  simp only [selectedInMonth_true] at hmonth
  rcases hmonth with hle | ⟨hrec, horg, hsame, -, heq⟩
  · exact hle.trans hcap
  · obtain ⟨reference, question, provider, refused, k, rfl, hst, hr⟩ := hx.recording hrec
    have hcond := hl.2 rfl _ (pending_eq hx.stream hst hr) horg
    have hi : ofOrg org a x.stream = true := by
      rw [Proofs.ofOrg, hx.stream, Option.any_some, horg]
      exact beq_self_eq_true org
    have hroom : unblockedInMonth org x.now a.db < env.settings.monthlyQuestionCap := by
      cases hsearched : searched (a.history x.stream) with
      | true => exact h.room_in_month hl.1 hi (h.ready hx.stream hst hr hsearched) (hcond.1 rfl hsearched)
      | false => exact hstop _ (pending_eq hx.stream hst hr) horg rfl hsearched
    rw [heq, ← unblockedInMonth_congr hsame]
    exact hroom

/-- The caps, but for the answers of stopped asks that are not marked yet. -/
structure Capped (env : Env) (org : Uuid) (a : AskStreams) : Prop where
  accounted : Accounted env org a
  answered : ∀ now, selectedInMonth (fun answerId => !stopped a answerId) org now a.db ≤
    env.settings.monthlyQuestionCap
  budget : SpendWithinBudget env.settings org a.db

theorem Unhurried.clock (hl : Unhurried env.settings org a l) (hx : Logged env a l x s) : ClockAt a x.now := by
  rcases hx.event with ⟨signal, f, rfl, -⟩ | ⟨fault, reference, o, k, rfl, -⟩
  · exact hl
  · exact hl.1

theorem Capped.step (h : Capped env org a) (hl : Unhurried env.settings org a l) :
    Capped env org (AskStreams.step env a l) := by
  have haccounted := h.accounted.step (l := l) fun x s hx => hl.clock hx
  rcases @askStep_logged env a l with ⟨hlog, hdb, -⟩ | ⟨x, s, hx⟩
  · refine ⟨haccounted, fun now => ?_, by rw [hdb]; exact h.budget⟩
    have hsame : stopped (AskStreams.step env a l) = stopped a := by
      funext answerId
      simp only [stopped, history, hlog]
    rw [hdb, hsame]
    exact h.answered now
  · exact ⟨haccounted, fun now => h.accounted.answered_logged hx hl (h.answered now),
      h.accounted.spend_step hx hl h.budget⟩

end Caps

/-- In every run of asks of which none of the org's writes after the others have used up what its check had
found left, the org has never more unblocked answers in a month than the cap, but for those of stopped asks
that are not marked yet, and its spend is within the budget. If moreover no ask is stopped and recorded in a
month that is full, the org is within its caps all along. -/
theorem caps_hold_unless_outrun (env : Env) (org : Uuid) (db : Db) (nextId : Uuid)
    (hids : AnswerIds (AskStreams.fresh db nextId)) (hcaps : WithinCaps env.settings org db)
    (ls : List AskStreams.Label)
    (hls : Runs.EachStep (AskStreams.step env) (Unhurried env.settings org) (AskStreams.fresh db nextId) ls) :
    Runs.Throughout (AskStreams.step env) (fun a => (∀ now, unblockedInMonth org now a.db ≤
      env.settings.monthlyQuestionCap + unmarkedInMonth org now a) ∧ SpendWithinBudget env.settings org a.db)
      (AskStreams.fresh db nextId) ls ∧
    (Runs.EachStep (AskStreams.step env) (StopsWithRoom env.settings org) (AskStreams.fresh db nextId) ls →
      Runs.Throughout (AskStreams.step env) (fun a => WithinCaps env.settings org a.db)
        (AskStreams.fresh db nextId) ls) := by
  have hstart : Capped env org (AskStreams.fresh db nextId) :=
    ⟨accounted_fresh hids, fun now => (selectedInMonth_le _ now).trans (hcaps.month now), hcaps.budget⟩
  constructor
  · refine (Runs.throughout_of_eachStep (P := Capped env org) (fun a l h hl => h.step hl) hstart hls).mono
      fun a h => ⟨fun now => ?_, h.budget⟩
    rw [unblockedInMonth_eq (stopped a)]
    exact Nat.add_le_add_right (h.answered now) _
  · intro hstops
    have hboth : Runs.Throughout (AskStreams.step env)
        (fun a => Capped env org a ∧ ∀ now, unblockedInMonth org now a.db ≤ env.settings.monthlyQuestionCap)
        (AskStreams.fresh db nextId) ls := by
      refine Runs.throughout_of_eachStep (fun a l h hl => ⟨h.1.step hl.1, fun now => ?_⟩) ⟨hstart, hcaps.month⟩
        (Runs.eachStep_and.2 ⟨hls, hstops⟩)
      rcases @askStep_logged env a l with ⟨-, hdb, -⟩ | ⟨x, s, hx⟩
      · rw [hdb]
        exact h.2 now
      · exact h.1.accounted.month_logged hx hl.1 hl.2 (h.2 now)
    exact hboth.mono fun a h => ⟨h.2, h.1.budget⟩

/-- An org that has not asked anything is within its caps. -/
theorem withinCaps_of_no_answers (settings : Settings) {db : Db} (h : db.answers = []) :
    WithinCaps settings org db := by
  refine ⟨fun now => ?_, fun till => .inl ?_⟩
  · rw [unblockedInMonth, h]
    exact Nat.zero_le _
  · rw [spendIn24h, h]
    exact zero_le

/-- A member of the org. -/
def member : AuthContext := ⟨1, 0, .member, "a@acme.com"⟩

/-- The member asks as often at once, and each of the asks makes its check before any of them records its
answer, takes a word and leaves. -/
def askAtOnce (asks : List Nat) : List AskStreams.Label :=
  asks.map (fun i => .ask i member refundQuestion) ++ asks.map (fun i => .resume i 0 .next) ++
    asks.flatMap (fun i => List.replicate 3 (.perform i 0 none "")) ++
    asks.flatMap (fun i => List.replicate 3 (.perform i 0 none "") ++
      [.resume i 0 .next, .resume i 0 .next, .perform i 0 none "", .resume i 0 .close, .perform i 0 none ""])

/-- The member asks when the org has reached its cap: two queries, the answer and its mark, and a line in the
audit log. -/
def askTooMuch (i : Nat) : List AskStreams.Label :=
  [.ask i member refundQuestion, .resume i 0 .next] ++ List.replicate 5 (.perform i 0 none "") ++
    [.resume i 0 .next, .resume i 0 .next]

/-- A month with room for two questions, and a day with a budget of 3 USD. -/
def roomyEnv : Env := { asciiEnv id with settings := { monthlyQuestionCap := 2, dailyBudgetUsd := 3 } }

/-- Two asks at once, and a third one that is stopped: the caps hold all along, and strictly until the third. -/
theorem caps_hold_of_two_asks_at_once :
    Runs.Throughout (AskStreams.step roomyEnv) (fun a => (∀ now, unblockedInMonth 0 now a.db ≤
      roomyEnv.settings.monthlyQuestionCap + unmarkedInMonth 0 now a) ∧ SpendWithinBudget roomyEnv.settings 0 a.db)
      (AskStreams.fresh deskDb 10) (askAtOnce [0, 1] ++ askTooMuch 2) ∧
    Runs.Throughout (AskStreams.step roomyEnv) (fun a => WithinCaps roomyEnv.settings 0 a.db)
      (AskStreams.fresh deskDb 10) (askAtOnce [0, 1]) := by
  have hids : AnswerIds (AskStreams.fresh deskDb 10) := ⟨List.nodup_nil, fun b hb => absurd hb List.not_mem_nil⟩
  have hcaps : WithinCaps roomyEnv.settings 0 deskDb := withinCaps_of_no_answers _ rfl
  exact ⟨(caps_hold_unless_outrun roomyEnv 0 deskDb 10 hids hcaps _ (by decide +kernel)).1,
    (caps_hold_unless_outrun roomyEnv 0 deskDb 10 hids hcaps _ (by decide +kernel)).2 (by decide +kernel)⟩

/-- A month with room for one question, and a day with a budget of 1 USD. -/
def tightEnv : Env := { asciiEnv id with settings := { monthlyQuestionCap := 1, dailyBudgetUsd := 1 } }

/-- Three asks at once all get an answer, of 1 USD each: both caps are broken. And an ask that its check stops
breaks the month's for as long as its answer is recorded and not marked. -/
theorem asks_at_once_break_the_caps :
    (¬ Runs.Throughout (AskStreams.step tightEnv)
      (fun a => ∀ now, unblockedInMonth 0 now a.db ≤ tightEnv.settings.monthlyQuestionCap)
      (AskStreams.fresh deskDb 10) (askAtOnce [0, 1, 2])) ∧
    (¬ Runs.Throughout (AskStreams.step tightEnv)
      (fun a => ∀ till, spendIn24h 0 till a.db ≤ tightEnv.settings.dailyBudgetUsd ∨
        ∃ b ∈ a.db.answers, createdIn24h 0 till b = true ∧
          spendIn24h 0 till a.db ≤ tightEnv.settings.dailyBudgetUsd + b.costUsd)
      (AskStreams.fresh deskDb 10) (askAtOnce [0, 1, 2])) ∧
    ¬ Runs.Throughout (AskStreams.step tightEnv)
      (fun a => ∀ now, unblockedInMonth 0 now a.db ≤ tightEnv.settings.monthlyQuestionCap)
      (AskStreams.fresh deskDb 10) (askAtOnce [0] ++ (askTooMuch 1).take 4) := by
  refine ⟨fun h => ?_, fun h => ?_, fun h => ?_⟩
  · have hthree : unblockedInMonth 0 0 (Runs.run (AskStreams.step tightEnv) (AskStreams.fresh deskDb 10)
        (askAtOnce [0, 1, 2])).db = 3 := by decide
    have hle := h.last 0
    rw [hthree] at hle
    exact absurd hle (by decide)
  · have hthree : spendIn24h 0 0 (Runs.run (AskStreams.step tightEnv) (AskStreams.fresh deskDb 10)
        (askAtOnce [0, 1, 2])).db = 3 := by decide +kernel
    have hcosts : ∀ b ∈ (Runs.run (AskStreams.step tightEnv) (AskStreams.fresh deskDb 10)
        (askAtOnce [0, 1, 2])).db.answers, b.costUsd = 1 := by decide
    rcases h.last 0 with hle | ⟨b, hb, -, hle⟩
    · rw [hthree] at hle
      exact absurd hle (by decide)
    · rw [hthree, hcosts b hb] at hle
      exact absurd hle (by decide +kernel)
  · have htwo : unblockedInMonth 0 0 (Runs.run (AskStreams.step tightEnv) (AskStreams.fresh deskDb 10)
        (askAtOnce [0] ++ (askTooMuch 1).take 4)).db = 2 := by decide +kernel
    have hle := h.last 0
    rw [htwo] at hle
    exact absurd hle (by decide)

end KnowledgeDesk.Proofs
