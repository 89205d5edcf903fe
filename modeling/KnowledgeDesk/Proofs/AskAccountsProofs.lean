import KnowledgeDesk.Proofs.OrgAnswersProofs

/-!
# The account of a run

What an ask has read of its org bounds what is there now, up to what has been written since (`Accounted`). An
ask that its check has let through and that is not outrun by others has room for its answer, and one that is
not outspent has room for its cost.
-/

open Table

namespace KnowledgeDesk.Proofs

open Assistant Providers Stmt AskStreams

variable {env : Env} {org : Uuid}

/-! ## What has been written since a query -/

/-- What the stream `i` was first told of what `told?` recognizes, when, and what has been logged since. -/
def since {β : Type} (told? : AskEvent → Option β) (i : Nat) : List AskEntry → Option (Time × β × List AskEntry)
  | [] => none
  | x :: log => match if x.stream = i then told? x.event else none with
    | some b => some (x.now, b, log)
    | none => since told? i log

section Since

variable {β : Type} {told? : AskEvent → Option β} {i : Nat} {log : List AskEntry}

theorem since_some {t : Time} {b : β} {later : List AskEntry} (h : since told? i log = some (t, b, later)) :
    ∃ before x, log = before ++ x :: later ∧ x.stream = i ∧ x.now = t ∧ told? x.event = some b ∧
      ∀ y ∈ before, y.stream = i → told? y.event = none := by
  induction log with
  | nil => cases h
  | cons x log ih =>
    rw [since] at h
    split at h
    · rename_i b' hb
      split at hb
      · rename_i hx
        cases h
        exact ⟨[], x, rfl, hx, rfl, hb, fun y hy => absurd hy List.not_mem_nil⟩
      · cases hb
    · rename_i hnone
      obtain ⟨before, y, rfl, hy, ht, hb, hbefore⟩ := ih h
      refine ⟨x :: before, y, rfl, hy, ht, hb, fun z hz hzi => ?_⟩
      rcases List.mem_cons.1 hz with rfl | hz
      · rwa [if_pos hzi] at hnone
      · exact hbefore z hz hzi

theorem since_snoc {x : AskEntry} {t : Time} {b : β} {later : List AskEntry}
    (h : since told? i (log ++ [x]) = some (t, b, later)) :
    (∃ later', since told? i log = some (t, b, later') ∧ later = later' ++ [x]) ∨
    (x.stream = i ∧ x.now = t ∧ told? x.event = some b ∧ later = []) := by
  induction log with
  | nil =>
    obtain ⟨before, y, hlog, hy, ht, hb, -⟩ := since_some h
    cases before with
    | nil =>
      obtain ⟨rfl, rfl⟩ := List.cons.inj hlog
      exact .inr ⟨hy, ht, hb, rfl⟩
    | cons z before => simp at hlog
  | cons y log ih =>
    rw [List.cons_append, since] at h
    rw [since]
    split at h
    · cases h
      exact .inl ⟨log, rfl, rfl⟩
    · exact ih h

/-- The stream was told if its history says so. -/
theorem exists_since {b : β}
    (h : (((log.filter fun x => x.stream == i).map (·.event)).findSome? told?) = some b) :
    ∃ t later, since told? i log = some (t, b, later) := by
  induction log with
  | nil => cases h
  | cons x log ih =>
    rw [since]
    by_cases hx : x.stream = i
    · rw [List.filter_cons_of_pos (by simpa using hx), List.map_cons, List.findSome?_cons] at h
      rw [if_pos hx]
      cases htold : told? x.event with
      | some b' =>
        rw [htold] at h
        exact ⟨x.now, log, by rw [Option.some.inj h]⟩
      | none =>
        rw [htold] at h
        exact ih h
    · rw [List.filter_cons_of_neg (by simpa using hx)] at h
      rw [if_neg hx]
      exact ih h

end Since

/-- The stream is one of a member of the org. -/
def ofOrg (org : Uuid) (a : AskStreams) (i : Nat) : Bool := (a.streams i).any fun s => s.ctx.orgId == org

/-- The number of answers recorded for the org, by a part of the log. -/
def recordedFor (org : Uuid) (a : AskStreams) (log : List AskEntry) : Nat :=
  log.countP fun x => ofOrg org a x.stream && (recordedId? x.event).isSome

/-- The costs booked for the org, by a part of the log. -/
def bookedFor (org : Uuid) (a : AskStreams) (log : List AskEntry) : ℚ≥0 :=
  (log.map fun x => if ofOrg org a x.stream then bookedCost x.event else 0).sum

/-! ## Being overtaken -/

/-- The ids of the answers differ, and the next id is new. -/
structure AnswerIds (a : AskStreams) : Prop where
  nodup : (a.db.answers.map (·.id)).Nodup
  fresh : ∀ b ∈ a.db.answers, b.id < a.nextId

/-- The clock has not gone back behind what is logged. -/
def ClockAt (a : AskStreams) (now : Time) : Prop := ∀ x ∈ a.log, x.now ≤ now

/-- Answers have been recorded for the org since the ask `i` was told the month's questions, and with them the
cap is reached. -/
def Outrun (settings : Settings) (org : Uuid) (a : AskStreams) (i : Nat) : Prop :=
  ∃ told ∈ since questionsTold? i a.log, recordedFor org a told.2.2 ≠ 0 ∧
    settings.monthlyQuestionCap ≤ told.2.1 + recordedFor org a told.2.2

/-- Costs have been booked for the org since the ask `i` was told the spend, and with them the budget is
exceeded. -/
def Outspent (settings : Settings) (org : Uuid) (a : AskStreams) (i : Nat) : Prop :=
  ∃ told ∈ since spendTold? i a.log, bookedFor org a told.2.2 ≠ 0 ∧
    settings.dailyBudgetUsd < told.2.1 + bookedFor org a told.2.2

instance (a : AskStreams) (now : Time) : Decidable (ClockAt a now) :=
  inferInstanceAs (Decidable (∀ x ∈ a.log, x.now ≤ now))

instance (settings : Settings) (a : AskStreams) (i : Nat) : Decidable (Outrun settings org a i) :=
  inferInstanceAs (Decidable (∃ told ∈ since questionsTold? i a.log, _ ∧ _))

instance (settings : Settings) (a : AskStreams) (i : Nat) : Decidable (Outspent settings org a i) :=
  inferInstanceAs (Decidable (∃ told ∈ since spendTold? i a.log, _ ∧ _))

/-! ## What a step logs -/

/-- The step logs the event `x` of the stream `s`. -/
structure Logged (env : Env) (a : AskStreams) (l : AskStreams.Label) (x : AskEntry) (s : AskStream) : Prop where
  log : (AskStreams.step env a l).log = a.log ++ [x]
  stream : a.streams x.stream = some s
  write : AnswerWrite s.ctx a.nextId x.now a.db (AskStreams.step env a l).db x.event
  nextId : a.nextId ≤ (AskStreams.step env a l).nextId
  drawn : recordedId? x.event ≠ none → a.nextId < (AskStreams.step env a l).nextId
  event : (∃ signal f, l = .resume x.stream x.now signal ∧ x.event = .yielded f signal) ∨
    ∃ fault reference o k, l = .perform x.stream x.now fault reference ∧ s.started = true ∧ s.rest = .perform o k ∧
      x.event = .performed o (reply env s.ctx a.nextId x.now fault reference a.db o).1

/-- Recording an answer draws its id. -/
theorem drawn_pos {o : AskOp} {r : o.Reply} (h : recordedId? (.performed o r) ≠ none) : 0 < drawn o r := by
  unfold recordedId? at h
  split at h
  · rename_i he
    cases he
    exact Nat.one_pos
  · exact absurd rfl h

/-- A step logs an event, or leaves the log and the tables as they are. -/
theorem askStep_logged (a : AskStreams) (l : AskStreams.Label) :
    ((AskStreams.step env a l).log = a.log ∧ (AskStreams.step env a l).db = a.db ∧
      (AskStreams.step env a l).nextId = a.nextId) ∨ ∃ x s, Logged env a l x s := by
  rcases @askStep_cases env a l with hid | ⟨i, ctx, req, he, hs, hstep⟩ |
    ⟨i, s, rest, hs, hst, hrest, hstep⟩ | ⟨i, now, fault, reference, s, o, k, he, hs, hst, hr, hstep⟩ |
    ⟨i, now, signal, s, f, k, he, hs, hst, hr, hstep⟩
  · rw [hid]
    exact .inl ⟨rfl, rfl, rfl⟩
  · rw [hstep]
    exact .inl ⟨rfl, rfl, rfl⟩
  · rw [hstep]
    exact .inl ⟨rfl, rfl, rfl⟩
  · refine .inr ⟨⟨i, now, .performed o (reply env s.ctx a.nextId now fault reference a.db o).1⟩, s, ?_, hs, ?_, ?_,
      ?_, .inr ⟨fault, reference, o, k, he, hst, hr, rfl⟩⟩
    · rw [hstep]
      rfl
    · rw [hstep]
      exact reply_write s.ctx a.nextId now fault reference a.db o
    · rw [hstep]
      exact Nat.le_add_right _ _
    · intro h
      rw [hstep]
      exact Nat.lt_add_of_pos_right (drawn_pos h)
  · refine .inr ⟨⟨i, now, .yielded f signal⟩, s, ?_, hs, ?_, ?_, ?_, .inl ⟨signal, f, he, rfl⟩⟩
    · rw [hstep]
      rfl
    · rw [hstep]
      exact .nothing rfl rfl rfl
    · rw [hstep]
      exact le_rfl
    · exact fun h => absurd rfl h

/-- An open stream keeps its caller. -/
theorem ofOrg_step {a : AskStreams} (l : AskStreams.Label) {j : Nat} (hj : a.streams j ≠ none) :
    ofOrg org (AskStreams.step env a l) j = ofOrg org a j := by
  have hset : ∀ (a' : AskStreams) i s s', a.streams i = some s → s'.ctx = s.ctx →
      a'.streams = (a.setStream i s').streams → ofOrg org a' j = ofOrg org a j := by
    intro a' i s s' hs hctx hstreams
    rw [ofOrg, ofOrg, hstreams]
    by_cases hji : j = i
    · rw [hji, setStream_self, hs, Option.any_some, Option.any_some, hctx]
    · rw [setStream_of_ne a s' hji]
  rcases @askStep_cases env a l with hid | ⟨i, ctx, req, he, hs, hstep⟩ |
    ⟨i, s, rest, hs, hst, hrest, hstep⟩ | ⟨i, now, fault, reference, s, o, k, he, hs, hst, hr, hstep⟩ |
    ⟨i, now, signal, s, f, k, he, hs, hst, hr, hstep⟩
  · rw [hid]
  · have hji : j ≠ i := fun h => hj (h ▸ hs)
    rw [hstep, ofOrg, ofOrg, setStream_of_ne a _ hji]
  · exact hset _ i s { s with started := true, rest } hs rfl (by rw [hstep])
  · exact hset _ i s { s with started := true, rest := k _ } hs rfl (by rw [hstep]; rfl)
  · exact hset _ i s { s with started := true, rest := k _ } hs rfl (by rw [hstep]; rfl)

theorem Living.opened {a : AskStreams} (h : Living a) {x : AskEntry} (hx : x ∈ a.log) :
    a.streams x.stream ≠ none := by
  intro hnone
  have hmem : x.event ∈ a.history x.stream :=
    List.mem_map_of_mem (List.mem_filter.2 ⟨hx, beq_self_eq_true x.stream⟩)
  rw [h.unopened x.stream hnone] at hmem
  cases hmem

/-- The asks that have been told something, and those that were logged since, are open. -/
theorem Living.told {a : AskStreams} (h : Living a) {β : Type} {told? : AskEvent → Option β} {i : Nat} {t : Time}
    {b : β} {later : List AskEntry} (hsince : since told? i a.log = some (t, b, later)) :
    a.streams i ≠ none ∧ ∀ z ∈ later, a.streams z.stream ≠ none := by
  obtain ⟨before, y, hlog, rfl, -, -, -⟩ := since_some hsince
  refine ⟨h.opened ?_, fun z hz => h.opened ?_⟩
  · rw [hlog]
    exact List.mem_append_right before List.mem_cons_self
  · rw [hlog]
    exact List.mem_append_right before (List.mem_cons_of_mem y hz)

section Counts

variable {a : AskStreams} {l : AskStreams.Label} {log : List AskEntry}

theorem recordedFor_step (hlog : ∀ x ∈ log, a.streams x.stream ≠ none) :
    recordedFor org (AskStreams.step env a l) log = recordedFor org a log := by
  refine List.countP_congr fun x hx => ?_
  rw [ofOrg_step l (hlog x hx)]

theorem bookedFor_step (hlog : ∀ x ∈ log, a.streams x.stream ≠ none) :
    bookedFor org (AskStreams.step env a l) log = bookedFor org a log := by
  refine congrArg List.sum (List.map_congr_left fun x hx => ?_)
  rw [ofOrg_step l (hlog x hx)]

theorem recordedFor_append (log' : List AskEntry) :
    recordedFor org a (log ++ log') = recordedFor org a log + recordedFor org a log' := List.countP_append

theorem bookedFor_append (log' : List AskEntry) :
    bookedFor org a (log ++ log') = bookedFor org a log + bookedFor org a log' := by
  rw [bookedFor, List.map_append, List.sum_append]
  rfl

end Counts

/-! ## What the checks have read -/

section Reads

variable {db : Db} {ctx : AuthContext} {now : Time}

theorem dateTruncMonth_le (t : Time) : dateTruncMonth t ≤ t := by
  have hmonth := Calendar.monthStart_le (dayOf t)
  have hday : dayOf t * seconds 86400 ≤ t := Int.ediv_mul_le t (by decide)
  exact (Int.mul_le_mul_of_nonneg_right hmonth (by decide)).trans hday

theorem dateTruncMonth_mono {t t' : Time} (h : t ≤ t') : dateTruncMonth t ≤ dateTruncMonth t' :=
  Int.mul_le_mul_of_nonneg_right (Calendar.monthStart_mono (Int.ediv_le_ediv (by decide) h)) (by decide)

/-- The month's questions bound what there is of that month and of any later one. -/
theorem unblockedInMonth_le (db : Db) {later : Time} (h : now ≤ later) :
    unblockedInMonth org later db ≤ (monthAnswers org now db).length := by
  rw [monthAnswers, ← List.countP_eq_length_filter]
  refine List.countP_mono_left fun b _ hc => ?_
  simp only [countsInMonth, Bool.and_eq_true, beq_iff_eq] at hc
  have hnow : dateTruncMonth now ≤ b.createdAt :=
    (dateTruncMonth_mono h).trans (hc.2 ▸ dateTruncMonth_le b.createdAt)
  simp [rls, hc.1.1, hnow]

/-- The spend of the last 24 hours bounds that of any 24 hours that end later. -/
theorem spendIn24h_le (db : Db) {till : Time} (h : now ≤ till) :
    spendIn24h org till db ≤ spendSince org now db := by
  rw [spendIn24h, spendSince, sum_map_filter, sum_map_filter]
  refine List.sum_le_sum fun b _ => ?_
  by_cases hin : createdIn24h org till b = true
  · have hb := hin
    simp only [createdIn24h, Bool.and_eq_true, beq_iff_eq, decide_eq_true_eq] at hb
    have hsince : now - seconds 86400 < b.createdAt := lt_of_le_of_lt (sub_le_sub_right h _) hb.1.2
    rw [if_pos hin, if_pos (by simp [rls, hb.1.1, hsince])]
  · rw [if_neg hin]
    exact zero_le

theorem questionsTold_reply {o : AskOp} {fault : Option Err} {fresh : Uuid} {reference : String} {questions : Nat}
    (h : questionsTold? (.performed o (reply env ctx fresh now fault reference db o).1) = some questions) :
    questions = (monthAnswers ctx.orgId now db).length := by
  cases o with
  | db call =>
    cases call with
    | questionsThisMonth =>
      cases fault with
      | none => exact (Option.some.inj h).symm
      | some e => cases h
    | _ => cases h
  | _ => cases h

theorem spendTold_reply {o : AskOp} {fault : Option Err} {fresh : Uuid} {reference : String} {spend : ℚ≥0}
    (h : spendTold? (.performed o (reply env ctx fresh now fault reference db o).1) = some spend) :
    spend = spendSince ctx.orgId now db := by
  cases o with
  | db call =>
    cases call with
    | spendLast24h =>
      cases fault with
      | none => exact (Option.some.inj h).symm
      | some e => cases h
    | _ => cases h
  | _ => cases h

end Reads

theorem recordedId_of_questionsTold {e : AskEvent} {questions : Nat} (h : questionsTold? e = some questions) :
    recordedId? e = none := by
  unfold questionsTold? at h
  split at h
  · rfl
  · cases h

theorem recordedId_of_spendTold {e : AskEvent} {spend : ℚ≥0} (h : spendTold? e = some spend) :
    recordedId? e = none ∧ bookedCost e = 0 := by
  unfold spendTold? at h
  split at h
  · exact ⟨rfl, rfl⟩
  · cases h

/-! ## The account of a run -/

/-- The state of the run accounts for what the asks have read: what is there now is at most what an ask was
told and what has been written since. -/
structure Accounted (env : Env) (org : Uuid) (a : AskStreams) : Prop where
  living : Living a
  ids : AnswerIds a
  env : ∀ i s, a.streams i = some s → s.req.env = env
  times : a.log.Pairwise fun x y => x.now ≤ y.now
  rows : ∀ x ∈ a.log, ∀ answerId, recordedId? x.event = some answerId →
    answerId < a.nextId ∧ ∀ b ∈ a.db.answers, b.id = answerId → b.createdAt = x.now
  questions : ∀ i, ofOrg org a i = true → ∀ t questions later,
    since questionsTold? i a.log = some (t, questions, later) →
      ∀ now, t ≤ now → unblockedInMonth org now a.db ≤ questions + recordedFor org a later
  spend : ∀ i, ofOrg org a i = true → ∀ t spend later, since spendTold? i a.log = some (t, spend, later) →
    ∀ till, t ≤ till → spendIn24h org till a.db ≤ spend + bookedFor org a later

section Account

variable {a : AskStreams} {l : AskStreams.Label} {x : AskEntry} {s : AskStream}

theorem AnswerIds.logged (h : AnswerIds a) (hx : Logged env a l x s) : AnswerIds (AskStreams.step env a l) := by
  have hids : ∀ {rows : List (Uuid × Time)},
      (AskStreams.step env a l).db.answers.map (fun b => (b.id, b.createdAt)) = rows →
        (AskStreams.step env a l).db.answers.map (·.id) = rows.map (·.1) := by
    rintro rows rfl
    rw [List.map_map]
    rfl
  have hold : (a.db.answers.map fun b => (b.id, b.createdAt)).map (·.1) = a.db.answers.map (·.id) := by
    rw [List.map_map]
    rfl
  have hlt : ∀ answerId ∈ a.db.answers.map (·.id), answerId < a.nextId := by
    intro answerId hmem
    obtain ⟨b, hb, rfl⟩ := List.mem_map.1 hmem
    exact h.fresh b hb
  rcases hx.write.rows with ⟨hsame, -⟩ | ⟨hrec, hnew⟩
  · have he := (hids hsame).trans hold
    refine ⟨he ▸ h.nodup, fun b hb => ?_⟩
    exact (hlt b.id (he ▸ List.mem_map_of_mem hb)).trans_le hx.nextId
  · have he : (AskStreams.step env a l).db.answers.map (·.id) = a.db.answers.map (·.id) ++ [a.nextId] := by
      rw [hids hnew, List.map_append, hold]
      rfl
    refine ⟨?_, fun b hb => ?_⟩
    · rw [he]
      refine List.nodup_append.2 ⟨h.nodup, List.nodup_singleton _, fun i hi j hj => ?_⟩
      rw [List.mem_singleton.1 hj]
      exact (hlt i hi).ne
    · have hmem : b.id ∈ a.db.answers.map (·.id) ++ [a.nextId] := he ▸ List.mem_map_of_mem hb
      rcases List.mem_append.1 hmem with hmem | hmem
      · exact (hlt b.id hmem).trans_le hx.nextId
      · rw [List.mem_singleton.1 hmem]
        exact hx.drawn (by rw [hrec]; simp)

/-- What has a row, after a step that logs an event. -/
theorem Logged.row (hx : Logged env a l x s) {b : Answer} (hb : b ∈ (AskStreams.step env a l).db.answers) :
    (∃ c ∈ a.db.answers, c.id = b.id ∧ c.createdAt = b.createdAt) ∨ (b.id = a.nextId ∧ b.createdAt = x.now) := by
  have hmem : (b.id, b.createdAt) ∈ (AskStreams.step env a l).db.answers.map fun b => (b.id, b.createdAt) :=
    List.mem_map_of_mem hb
  have hold : (b.id, b.createdAt) ∈ a.db.answers.map (fun b => (b.id, b.createdAt)) →
      ∃ c ∈ a.db.answers, c.id = b.id ∧ c.createdAt = b.createdAt := by
    intro hmem
    obtain ⟨c, hc, he⟩ := List.mem_map.1 hmem
    exact ⟨c, hc, (Prod.mk.inj he).1, (Prod.mk.inj he).2⟩
  rcases hx.write.rows with ⟨hsame, -⟩ | ⟨-, hnew⟩
  · exact .inl (hold (hsame ▸ hmem))
  · rw [hnew] at hmem
    rcases List.mem_append.1 hmem with hmem | hmem
    · exact .inl (hold hmem)
    · exact .inr (Prod.mk.inj (List.mem_singleton.1 hmem))

theorem Accounted.rows_logged (h : Accounted env org a) (hx : Logged env a l x s) :
    ∀ y ∈ (AskStreams.step env a l).log, ∀ answerId, recordedId? y.event = some answerId →
      answerId < (AskStreams.step env a l).nextId ∧
        ∀ b ∈ (AskStreams.step env a l).db.answers, b.id = answerId → b.createdAt = y.now := by
  intro y hy answerId hid
  rw [hx.log] at hy
  rcases List.mem_append.1 hy with hy | hy
  · obtain ⟨hlt, hrows⟩ := h.rows y hy answerId hid
    refine ⟨hlt.trans_le hx.nextId, fun b hb he => ?_⟩
    rcases hx.row hb with ⟨c, hc, hcid, hcreated⟩ | ⟨hnew, -⟩
    · rw [← hcreated]
      exact hrows c hc (hcid.trans he)
    · exact absurd (he.symm.trans hnew) hlt.ne
  · obtain rfl := List.mem_singleton.1 hy
    have hfresh : answerId = a.nextId := by
      rcases hx.write.rows with ⟨-, hnone⟩ | ⟨hrec, -⟩
      · rw [hnone] at hid
        cases hid
      · exact Option.some.inj (hid.symm.trans hrec)
    refine ⟨hfresh ▸ hx.drawn (by rw [hid]; simp), fun b hb he => ?_⟩
    rcases hx.row hb with ⟨c, hc, hcid, -⟩ | ⟨-, hnow⟩
    · exact absurd (hcid.trans (he.trans hfresh)) (h.ids.fresh c hc).ne
    · exact hnow

theorem Logged.ofOrg (hx : Logged env a l x s) (h : ofOrg org a x.stream = true) : s.ctx.orgId = org := by
  rw [Proofs.ofOrg, hx.stream, Option.any_some] at h
  exact eq_of_beq h

theorem Accounted.questions_logged (h : Accounted env org a) (hx : Logged env a l x s) :
    ∀ i, ofOrg org (AskStreams.step env a l) i = true → ∀ t questions later,
      since questionsTold? i (AskStreams.step env a l).log = some (t, questions, later) → ∀ now, t ≤ now →
        unblockedInMonth org now (AskStreams.step env a l).db ≤
          questions + recordedFor org (AskStreams.step env a l) later := by
  intro i hi t questions later hsince now ht
  have hmonth := hx.write.month org (fun _ => true) now
  simp only [selectedInMonth_true] at hmonth
  rw [hx.log] at hsince
  rcases since_snoc hsince with ⟨later', hold, rfl⟩ | ⟨rfl, rfl, htold, rfl⟩
  · obtain ⟨hopened, hlater⟩ := h.living.told hold
    rw [ofOrg_step l hopened] at hi
    have hbound := h.questions i hi t questions later' hold now ht
    rw [recordedFor_append, recordedFor_step hlater,
      recordedFor_step (fun z hz => by rw [List.mem_singleton.1 hz, hx.stream]; simp)]
    rcases hmonth with hle | ⟨hrec, horg, -, -, heq⟩
    · exact hle.trans (hbound.trans (Nat.add_le_add_left (Nat.le_add_right _ _) _))
    · have hone : recordedFor org a [x] = 1 := by
        simp [recordedFor, Proofs.ofOrg, hx.stream, horg, hrec]
      rw [heq, hone]
      omega
  · rw [ofOrg_step l (by rw [hx.stream]; simp)] at hi
    rcases hmonth with hle | ⟨hrec, -⟩
    · have hq : questions = (monthAnswers s.ctx.orgId x.now a.db).length := by
        rcases hx.event with ⟨signal, f, -, he⟩ | ⟨fault, reference, o, k, -, -, -, he⟩
        · rw [he] at htold
          cases htold
        · rw [he] at htold
          exact questionsTold_reply htold
      rw [hx.ofOrg hi] at hq
      exact hle.trans ((unblockedInMonth_le a.db ht).trans (hq ▸ Nat.le_add_right _ _))
    · rw [recordedId_of_questionsTold htold] at hrec
      cases hrec

theorem Accounted.spend_logged (h : Accounted env org a) (hx : Logged env a l x s) :
    ∀ i, ofOrg org (AskStreams.step env a l) i = true → ∀ t spend later,
      since spendTold? i (AskStreams.step env a l).log = some (t, spend, later) → ∀ till, t ≤ till →
        spendIn24h org till (AskStreams.step env a l).db ≤
          spend + bookedFor org (AskStreams.step env a l) later := by
  intro i hi t spend later hsince till ht
  have hspend := hx.write.spend h.ids.nodup org till
  rw [hx.log] at hsince
  rcases since_snoc hsince with ⟨later', hold, rfl⟩ | ⟨rfl, rfl, htold, rfl⟩
  · obtain ⟨hopened, hlater⟩ := h.living.told hold
    rw [ofOrg_step l hopened] at hi
    have hbound := h.spend i hi t spend later' hold till ht
    have hone : bookedFor org a [x] = if s.ctx.orgId = org then bookedCost x.event else 0 := by
      simp [bookedFor, Proofs.ofOrg, hx.stream]
    rw [bookedFor_append, bookedFor_step hlater,
      bookedFor_step (fun z hz => by rw [List.mem_singleton.1 hz, hx.stream]; simp), hone, ← add_assoc]
    exact hspend.trans (add_le_add_left hbound _)
  · rw [ofOrg_step l (by rw [hx.stream]; simp)] at hi
    have hq : spend = spendSince s.ctx.orgId x.now a.db := by
      rcases hx.event with ⟨signal, f, -, he⟩ | ⟨fault, reference, o, k, -, -, -, he⟩
      · rw [he] at htold
        cases htold
      · rw [he] at htold
        exact spendTold_reply htold
    rw [hx.ofOrg hi] at hq
    rw [(recordedId_of_spendTold htold).2, ite_self, add_zero] at hspend
    exact hspend.trans ((spendIn24h_le a.db ht).trans (hq ▸ le_self_add))

theorem env_step (h : ∀ i s, a.streams i = some s → s.req.env = env) :
    ∀ i s, (AskStreams.step env a l).streams i = some s → s.req.env = env := by
  have hset : ∀ (a' : AskStreams) i s, s.req.env = env → a'.streams = (a.setStream i s).streams →
      ∀ j s', a'.streams j = some s' → s'.req.env = env := by
    intro a' i s he hstreams j s' hj
    rw [hstreams] at hj
    by_cases hji : j = i
    · rw [hji, setStream_self] at hj
      rw [← Option.some.inj hj, he]
    · rw [setStream_of_ne a s hji] at hj
      exact h j s' hj
  rcases @askStep_cases env a l with hid | ⟨i, ctx, req, he, hs, hstep⟩ |
    ⟨i, s, rest, hs, hst, hrest, hstep⟩ | ⟨i, now, fault, reference, s, o, k, he, hs, hst, hr, hstep⟩ |
    ⟨i, now, signal, s, f, k, he, hs, hst, hr, hstep⟩
  · rw [hid]
    exact h
  · exact hset _ i ⟨ctx, { req with env }, false, start { req with env }⟩ rfl (by rw [hstep])
  · exact hset _ i { s with started := true, rest } (h i s hs) (by rw [hstep])
  · exact hset _ i { s with started := true, rest := k _ } (h i s hs) (by rw [hstep]; rfl)
  · exact hset _ i { s with started := true, rest := k _ } (h i s hs) (by rw [hstep]; rfl)

/-- What has been told stays accounted for, if the clock does not go back. -/
theorem Accounted.step (h : Accounted env org a) (hclock : ∀ x s, Logged env a l x s → ClockAt a x.now) :
    Accounted env org (AskStreams.step env a l) := by
  rcases @askStep_logged env a l with ⟨hlog, hdb, hnext⟩ | ⟨x, s, hx⟩
  · refine ⟨living_step h.living l, ⟨by rw [hdb]; exact h.ids.nodup, by rw [hdb, hnext]; exact h.ids.fresh⟩,
      env_step h.env, by rw [hlog]; exact h.times, by rw [hlog, hdb, hnext]; exact h.rows, ?_, ?_⟩
    · intro i hi t questions later hsince now ht
      rw [hlog] at hsince
      rw [ofOrg_step l (h.living.told hsince).1] at hi
      rw [hdb, recordedFor_step (h.living.told hsince).2]
      exact h.questions i hi t questions later hsince now ht
    · intro i hi t spend later hsince till ht
      rw [hlog] at hsince
      rw [ofOrg_step l (h.living.told hsince).1] at hi
      rw [hdb, bookedFor_step (h.living.told hsince).2]
      exact h.spend i hi t spend later hsince till ht
  · refine ⟨living_step h.living l, h.ids.logged hx, env_step h.env, ?_, h.rows_logged hx, h.questions_logged hx,
      h.spend_logged hx⟩
    rw [hx.log]
    refine List.pairwise_append.2 ⟨h.times, List.pairwise_singleton _ _, fun y hy z hz => ?_⟩
    rw [List.mem_singleton.1 hz]
    exact hclock x s hx y hy

theorem accounted_fresh {db : Db} {nextId : Uuid} (hids : AnswerIds (AskStreams.fresh db nextId)) :
    Accounted env org (AskStreams.fresh db nextId) where
  living := living_fresh db nextId
  ids := hids
  env i s hs := absurd hs (by simp [AskStreams.fresh])
  times := List.Pairwise.nil
  rows x hx := absurd hx List.not_mem_nil
  questions i hi := absurd hi (by simp [ofOrg, AskStreams.fresh])
  spend i hi := absurd hi (by simp [ofOrg, AskStreams.fresh])

/-! ## Room -/

/-- When a stream comes to an operation, it is ready for it. -/
theorem Accounted.ready (h : Accounted env org a) {i : Nat} {o : AskOp} {k : o.Reply → AskGen}
    (hs : a.streams i = some s) (hst : s.started = true) (hr : s.rest = .perform o k) :
    Ready env.settings (a.history i) o := by
  rcases h.living.started i s hs hst with hreach | ⟨-, hret⟩
  · rw [hr] at hreach
    rw [← h.env i s hs]
    exact ready_of_reaches hreach
  · rw [hret] at hr
    cases hr

/-- An ask that was let through and is not outrun has room in the month. -/
theorem Accounted.room_in_month (h : Accounted env org a) {i : Nat} {now : Time} (hclock : ClockAt a now)
    (hi : ofOrg org a i = true) (hthrough : LetThrough env.settings (a.history i))
    (hrun : ¬ Outrun env.settings org a i) : unblockedInMonth org now a.db < env.settings.monthlyQuestionCap := by
  obtain ⟨spend, questions, rest, hhistory, -, hquestions⟩ := hthrough
  obtain ⟨t, later, hsince⟩ : ∃ t later, since questionsTold? i a.log = some (t, questions, later) := by
    refine exists_since ?_
    show (a.history i).findSome? questionsTold? = some questions
    rw [hhistory]
    rfl
  have ht : t ≤ now := by
    obtain ⟨before, y, hlog, -, rfl, -, -⟩ := since_some hsince
    refine hclock y ?_
    rw [hlog]
    exact List.mem_append_right before List.mem_cons_self
  have hbound := h.questions i hi t questions later hsince now ht
  by_cases hnone : recordedFor org a later = 0
  · rw [hnone, add_zero] at hbound
    exact hbound.trans_lt hquestions
  · have hleft : ¬ env.settings.monthlyQuestionCap ≤ questions + recordedFor org a later :=
      fun hle => hrun ⟨(t, questions, later), hsince, hnone, hle⟩
    omega

/-- An ask that was let through and is not outspent has room in every 24 hours around its answer. -/
theorem Accounted.room_in_24h (h : Accounted env org a) {i : Nat} {answerId : Uuid} (hi : ofOrg org a i = true)
    (hthrough : LetThrough env.settings (a.history i)) (hrecorded : Recorded answerId (a.history i))
    (hspent : ¬ Outspent env.settings org a i) {b : Answer} (hb : b ∈ a.db.answers) (hid : b.id = answerId)
    {till : Time} (hin : createdIn24h org till b = true) :
    spendIn24h org till a.db ≤ env.settings.dailyBudgetUsd := by
  obtain ⟨spend, questions, rest, hhistory, hbudget, -⟩ := hthrough
  obtain ⟨t, later, hsince⟩ : ∃ t later, since spendTold? i a.log = some (t, spend, later) := by
    refine exists_since ?_
    show (a.history i).findSome? spendTold? = some spend
    rw [hhistory]
    rfl
  obtain ⟨before, x, hlog, hx, rfl, htold, hbefore⟩ := since_some hsince
  -- the answer was recorded after the spend was read, which is the first thing the ask did
  obtain ⟨e, he, hrec⟩ := hrecorded
  obtain ⟨y, hy, rfl⟩ := List.mem_map.1 he
  obtain ⟨hy, hyi⟩ := List.mem_filter.1 hy
  have hyi : y.stream = i := eq_of_beq hyi
  have hfirst : ∀ z ∈ before, z.stream ≠ i := by
    intro z hz hzi
    cases hfilter : before.filter fun z => z.stream == i with
    | nil => exact absurd hzi (by simpa using List.filter_eq_nil_iff.1 hfilter z hz)
    | cons w ws =>
      have hw : w ∈ before.filter fun z => z.stream == i := by
        rw [hfilter]
        exact List.mem_cons_self
      obtain ⟨hwb, hwi⟩ := List.mem_filter.1 hw
      have hhead : w.event = .performed (.db .spendLast24h) (.ok spend) := by
        rw [history, hlog, List.filter_append, hfilter] at hhistory
        exact (List.cons.inj hhistory).1
      have hnone := hbefore w hwb (eq_of_beq hwi)
      rw [hhead] at hnone
      cases hnone
  have hnow : x.now ≤ y.now := by
    have htimes := h.times
    have hy' := hy
    rw [hlog] at hy' htimes
    rcases List.mem_append.1 hy' with hy' | hy'
    · exact absurd hyi (hfirst y hy')
    · rcases List.mem_cons.1 hy' with rfl | hy'
      · exact le_rfl
      · exact (List.pairwise_cons.1 (List.pairwise_append.1 htimes).2.1).1 y hy'
  have htill : x.now ≤ till := by
    have hcreated := (h.rows y hy answerId hrec).2 b hb hid
    simp only [createdIn24h, Bool.and_eq_true, decide_eq_true_eq] at hin
    exact hnow.trans (hcreated ▸ hin.2)
  have hbound := h.spend i hi x.now spend later hsince till htill
  by_cases hnone : bookedFor org a later = 0
  · rw [hnone, add_zero] at hbound
    exact hbound.trans hbudget.le
  · refine hbound.trans (not_lt.1 fun hlt => ?_)
    exact hspent ⟨(x.now, spend, later), hsince, hnone, hlt⟩

end Account

end KnowledgeDesk.Proofs
