import KnowledgeDesk.Drain
import KnowledgeDesk.Lib.LeadsTo
import KnowledgeDesk.Proofs.ResyncProofs
import KnowledgeDesk.Proofs.TimerProofs
import KnowledgeDesk.Proofs.WorkerProofs

/-!
# A drain comes to its end

Every job that is handed out is reported on a few steps later, and a report leaves less work than the
claim found. Rounds in which nothing is due change nothing, and there are such rounds only until the
clock has passed every due time of the queue.
-/

open Table LeadsTo

namespace KnowledgeDesk.Proofs

open Drain

variable {env : Env} {me : Nat} {p : Pipeline} {s : Drain}

/-! ## The steps of a drain are steps of its worker -/

/-- The worker's own steps, its death apart. -/
def Mine (me : Nat) : Pipeline.Label → Prop
  | .claim w _ _ | .read w | .embed w _ | .write w _ | .succeed w _ | .interrupt w _ | .fail w _
  | .failDocument w _ => w = me
  | _ => False

/-- What holds of the pipeline under a drain that is left alone: the other workers are idle and no upload
is under way. -/
structure Alone (env : Env) (me : Nat) (p : Pipeline) : Prop where
  inv : Inv env p
  kept : JobsKept p
  others : ∀ w, w ≠ me → p.workers w = .idle
  uploads : UploadsDone p

/-- Another worker that is idle stays idle. -/
theorem idle_of_mine {l : Pipeline.Label} (hl : Mine me l) {w : Nat} (hw : w ≠ me)
    (hidle : p.workers w = .idle) : (Pipeline.step env p l).workers w = .idle := by
  have hmove := worker_step env p l w
  generalize (Pipeline.step env p l).workers w = phase at hmove
  cases hmove with
  | stay => exact hidle
  | claimed | marked | requeued | documentFailed => exact absurd hl hw
  | raised hjob _ =>
    rw [hidle] at hjob
    cases hjob
  | started hphase | embedded hphase | written hphase | buried hphase =>
    rw [hidle] at hphase
    cases hphase
  | crashed => rfl

theorem uploadOf_of_mine {l : Pipeline.Label} (hl : Mine me l) (r : Nat) : uploadOf l ≠ some r := by
  cases l with
  | sync | enqueue | abandon => exact hl.elim
  | _ => rintro ⟨⟩

theorem Alone.step (h : Alone env me p) {l : Pipeline.Label} (hl : Mine me l) :
    Alone env me (Pipeline.step env p l) where
  inv := step_inv h.inv l
  kept := jobsKept_step h.inv h.kept l
  others := fun w hw => idle_of_mine hl hw (h.others w hw)
  uploads := fun r => by
    rw [requests_step_of_ne env p (uploadOf_of_mine hl r)]
    exact h.uploads r

/-- The worker's steps keep a document covered while it is pending. -/
theorem covered_of_mine {id : Uuid} (h : Alone env me p) (hc : Pending p id → Covered True p id)
    {l : Pipeline.Label} (hl : Mine me l) :
    Pending (Pipeline.step env p l) id → Covered True (Pipeline.step env p l) id := by
  refine covered_step h.inv h.kept hc ?_ ?_ (.inl trivial)
  · cases l with
    | crash | abandon => exact hl.elim
    | _ => trivial
  · cases l with
    | enqueue => exact hl.elim
    | _ => exact not_false

theorem mine_jobStep {t : Tick} {phase : Phase} {l : Pipeline.Label} (h : jobStep me t phase = some l) :
    Mine me l := by
  cases phase with
  | idle => cases h
  | _ =>
    obtain rfl := Option.some.inj h
    rfl

/-! ## What there is to do -/

/-- The attempts a job may still take, and one more. -/
def work (j : Job) : Nat :=
  match j.status with
  | .queued | .running => j.maxAttempts - j.attempts + 1
  | _ => 0

/-- The work of the whole queue. -/
def backlog (jobs : List Job) : Nat := (jobs.map work).sum

/-- What a report makes of the row of a job that is running. -/
inductive Reported (j : Job) : Job → Prop
  | succeeded (now : Time) : Reported j (j.succeed now)
  | buried (error : String) (now : Time) : Reported j (j.bury error now)
  | requeued (error : String) (delay : Nat) (now : Time) (hmax : j.attempts < j.maxAttempts) :
      Reported j (j.requeue error delay now)

theorem work_of_live {j : Job} (h : Live j) : work j = j.maxAttempts - j.attempts + 1 := by
  rcases h with h | h <;> simp [work, h]

theorem live_of_isDue {now : Time} {j : Job} (h : isDue env now j = true) : Live j := by
  obtain ⟨m, hm, -⟩ := due_le_of_isDue h
  cases hstatus : j.status with
  | queued => exact .inl hstatus
  | running => exact .inr hstatus
  | succeeded | failed | dead =>
    rw [Job.due?, hstatus] at hm
    cases hm

/-- A claim and the report on it leave less to do. -/
theorem work_reported {j j' : Job} {now : Time} (hj : Live j) (h : Reported (j.claim now) j') :
    work j' < work j := by
  rw [work_of_live hj]
  cases h with
  | succeeded | buried => exact Nat.succ_pos _
  | requeued error delay now' hmax =>
    show j.maxAttempts - (j.attempts + 1) + 1 < j.maxAttempts - j.attempts + 1
    have hleft : j.attempts + 1 < j.maxAttempts := hmax
    omega

/-- What an update of one job's row changes about the backlog. -/
theorem backlog_update {jobs : List Job} (hids : (jobs.map Job.id).Nodup) {j : Job} (hj : j ∈ jobs)
    (f : Job → Job) :
    backlog (updateWhere (fun r => r.id == j.id) f jobs) + work j = backlog jobs + work (f j) :=
  sum_updateWhere_of_key hids hj

/-! ## A job in hand -/

/-- The worker executes a job whose row is as the claim left it, and whatever the report on it will be,
there will be less to do than `bound`. -/
structure InHand (env : Env) (me bound : Nat) (p : Pipeline) : Prop where
  alone : Alone env me p
  alive : ∀ job seen, p.workers me ≠ .dead job seen
  job : ∃ job, (p.workers me).job? = some job ∧ job ∈ p.db.jobs ∧
    ∀ j', Reported job j' → backlog p.db.jobs + work j' < bound + work job

/-- The report has been made, and the document is to be marked failed. -/
structure BuryingDocument (env : Env) (me bound : Nat) (p : Pipeline) : Prop where
  alone : Alone env me p
  dead : ∃ job seen, p.workers me = .dead job seen
  less : backlog p.db.jobs < bound

/-- The worker is between two jobs, with less to do than `bound`. -/
structure Resting (env : Env) (me bound : Nat) (p : Pipeline) : Prop where
  alone : Alone env me p
  idle : p.workers me = .idle
  less : backlog p.db.jobs < bound

/-- The steps a phase is away from the next claim, at most. -/
def stepsLeft : Phase → Nat
  | .idle => 0
  | .dead .. => 1
  | .raised .. => 2
  | .handled .. => 3
  | .embedded .. => 4
  | .loaded .. => 5
  | .claimed _ => 6

/-- A job is in hand, or its document is being buried. -/
def Busy (env : Env) (me bound : Nat) (p : Pipeline) : Prop :=
  InHand env me bound p ∨ BuryingDocument env me bound p

/-- A step brings the worker nearer to the end of its job, or to it. -/
def Advances (env : Env) (me bound : Nat) (p p' : Pipeline) : Prop :=
  (Busy env me bound p' ∧ stepsLeft (p'.workers me) < stepsLeft (p.workers me)) ∨ Resting env me bound p'

section JobSteps

variable {bound : Nat} {l : Pipeline.Label} {job : Job}

theorem goto_self (p : Pipeline) (phase : Phase) : (p.goto me phase).workers me = phase := by
  simp [Pipeline.goto]

/-- A step that writes no job row and takes the worker on with the job it has. -/
theorem InHand.goOn (h : InHand env me bound p) (db' : Db) (phase : Phase) (hl : Mine me l)
    (hstep : Pipeline.step env p l = { p with db := db' }.goto me phase) (hjobs : db'.jobs = p.db.jobs)
    (hjob : phase.job? = (p.workers me).job?) (halive : ∀ job seen, phase ≠ .dead job seen)
    (hless : stepsLeft phase < stepsLeft (p.workers me)) :
    Advances env me bound p (Pipeline.step env p l) := by
  have halone := h.alone.step hl
  obtain ⟨job, hj, hmem, hbound⟩ := h.job
  rw [hstep] at halone ⊢
  refine .inl ⟨.inl ⟨halone, ?_, job, ?_, hjobs.symm ▸ hmem, fun j' hr => ?_⟩, ?_⟩
  · rw [goto_self]
    exact halive
  · rw [goto_self, hjob, hj]
  · have hsame : ({ p with db := db' }.goto me phase).db.jobs = p.db.jobs := hjobs
    rw [hsame]
    exact hbound j' hr
  · rwa [goto_self]

/-- The report on the job in hand. -/
theorem InHand.report (h : InHand env me bound p) (hjob : (p.workers me).job? = some job) {f : Job → Job}
    (hreport : Reported job (f job)) :
    backlog (updateWhere (fun r => r.id == job.id) f p.db.jobs) < bound := by
  obtain ⟨job', hjob', hmem, hless⟩ := h.job
  obtain rfl := Option.some.inj (hjob.symm.trans hjob')
  have hsum := backlog_update h.alone.inv.jobIds hmem f
  have hbound := hless (f job) hreport
  omega

/-- An exception in the `try` block leads to the report. -/
theorem InHand.interrupt (h : InHand env me bound p) (e : Err) (htry : inTry (p.workers me) = true) :
    Advances env me bound p (Pipeline.step env p (.interrupt me e)) := by
  refine h.goOn p.db _ rfl rfl rfl ?_ (fun job seen => ?_) ?_
  all_goals
    cases hph : p.workers me with
    | claimed | loaded | embedded | handled => simp [Pipeline.interrupted, Phase.job?, stepsLeft]
    | idle | raised | dead =>
      rw [hph] at htry
      cases htry

/-- The next step of a job in hand. -/
theorem InHand.next (h : InHand env me bound p) {t : Tick} (hl : jobStep me t (p.workers me) = some l) :
    Advances env me bound p (Pipeline.step env p l) := by
  have hmine := mine_jobStep hl
  obtain ⟨job', hjob', hmem, -⟩ := h.job
  cases hph : p.workers me with
  | idle =>
    rw [hph] at hjob'
    cases hjob'
  | dead job seen => exact absurd hph (h.alive job seen)
  | claimed job =>
    rw [hph] at hl
    obtain rfl := Option.some.inj hl
    have hstarted : (∀ job' seen, Pipeline.startHandler job p.db ≠ .dead job' seen) ∧
        stepsLeft (Pipeline.startHandler job p.db) < 6 := by
      unfold Pipeline.startHandler
      repeat' split
      all_goals exact ⟨by simp, by simp [stepsLeft]⟩
    refine h.goOn p.db _ hmine (by simp [Pipeline.step, hph]) rfl ?_ hstarted.1 (hph ▸ hstarted.2)
    rw [startHandler_job, hph]
    rfl
  | loaded job doc =>
    rw [hph] at hl
    obtain rfl := Option.some.inj hl
    cases hembed : embedDocument env t.embedDocuments job.orgId doc with
    | ok rows =>
      exact h.goOn p.db (.embedded job doc rows) hmine (by simp [Pipeline.step, hph, hembed]) rfl
        (hph ▸ rfl) (by simp) (by simp [hph, stepsLeft])
    | error e =>
      exact h.goOn p.db (.raised job (some doc) e) hmine (by simp [Pipeline.step, hph, hembed])
        rfl (hph ▸ rfl) (by simp) (by simp [hph, stepsLeft])
  | embedded job doc rows =>
    rw [hph] at hl
    obtain rfl := Option.some.inj hl
    cases hwrite : writeDocument job.orgId doc.id rows t.now p.db with
    | ok r =>
      obtain ⟨u, db'⟩ := r
      obtain ⟨-, hdb⟩ := writeDocument_ok hwrite
      exact h.goOn db' (.handled job (some doc)) hmine (by simp [Pipeline.step, hph, hwrite])
        (hdb ▸ rfl) (hph ▸ rfl) (by simp) (by simp [hph, stepsLeft])
    | error e =>
      exact h.goOn p.db (.raised job (some doc) e) hmine (by simp [Pipeline.step, hph, hwrite])
        rfl (hph ▸ rfl) (by simp) (by simp [hph, stepsLeft])
  | handled job seen =>
    rw [hph] at hl
    obtain rfl := Option.some.inj hl
    have hjob : (p.workers me).job? = some job := by rw [hph]; rfl
    have hstep : Pipeline.step env p (.succeed me t.now) = ({ p with db := { p.db with
        jobs := updateWhere (fun j => j.id == job.id) (·.succeed t.now) p.db.jobs } } : Pipeline).goto me .idle := by
      simp [Pipeline.step, hph, Pipeline.commit, markSucceeded]
    have halone := h.alone.step hmine
    rw [hstep] at halone ⊢
    exact .inr ⟨halone, goto_self _ _, h.report hjob (.succeeded t.now)⟩
  | raised job seen error =>
    rw [hph] at hl
    obtain rfl := Option.some.inj hl
    have hjob : (p.workers me).job? = some job := by rw [hph]; rfl
    obtain rfl := Option.some.inj (hjob.symm.trans hjob')
    have hfind : p.db.job? job.id = some job := (find?_eq_some_iff h.alone.inv.jobIds).2 ⟨hmem, rfl⟩
    have hkind := ((h.alone.inv.workers me).job job hjob).2.1
    have halone := h.alone.step hmine
    by_cases hmax : job.maxAttempts ≤ job.attempts
    · have hstep : Pipeline.step env p (.fail me t.now) = ({ p with db := { p.db with
          jobs := updateWhere (fun j => j.id == job.id) (·.bury error.text t.now) p.db.jobs } } : Pipeline).goto
          me (.dead job seen) := by
        simp [Pipeline.step, hph, markFailed, hfind, hmax, hkind]
      rw [hstep] at halone ⊢
      refine .inl ⟨.inr ⟨halone, ⟨job, seen, goto_self _ _⟩, h.report hjob (.buried error.text t.now)⟩, ?_⟩
      rw [goto_self, hph]
      simp [stepsLeft]
    · have hstep : Pipeline.step env p (.fail me t.now) = ({ p with db := { p.db with
          jobs := updateWhere (fun j => j.id == job.id)
            (·.requeue error.text (backoffSeconds job.attempts) t.now) p.db.jobs } } : Pipeline).goto me .idle := by
        simp [Pipeline.step, hph, markFailed, hfind, hmax]
      rw [hstep] at halone ⊢
      exact .inr ⟨halone, goto_self _ _, h.report hjob (.requeued _ _ _ (Nat.lt_of_not_le hmax))⟩

/-- Marking the document failed ends the job. -/
theorem BuryingDocument.next (h : BuryingDocument env me bound p) {t : Tick}
    (hl : jobStep me t (p.workers me) = some l) : Resting env me bound (Pipeline.step env p l) := by
  have halone := h.alone.step (mine_jobStep hl)
  obtain ⟨job, seen, hph⟩ := h.dead
  rw [hph] at hl
  obtain rfl := Option.some.inj hl
  cases hid : job.documentId with
  | none =>
    have hstep : Pipeline.step env p (.failDocument me t.now) = p.goto me .idle := by
      simp [Pipeline.step, hph, hid]
    rw [hstep] at halone ⊢
    exact ⟨halone, goto_self _ _, h.less⟩
  | some id =>
    have hstep : Pipeline.step env p (.failDocument me t.now) =
        (p.commit (markDocumentFailed job.orgId id t.now)).goto me .idle := by
      simp [Pipeline.step, hph, hid]
    rw [hstep] at halone ⊢
    exact ⟨halone, goto_self _ _, h.less⟩

end JobSteps

/-! ## The loop of `run_pending` -/

section Loop

variable {bound k : Nat} {t : Tick} {C : (Nat → Tick) → Prop}

/-- A step with a job in hand. -/
theorem busy_step (hpc : s.pc = .running k) (h : Busy env me bound s.pipeline) :
    (step env me false s t).pc = .running k ∧
      Advances env me bound s.pipeline (step env me false s t).pipeline := by
  have hstep : step env me false s t = s.runPendingStep env me false t k := by rw [step, hpc]
  rw [hstep, runPendingStep]
  cases hl : jobStep me t (s.pipeline.workers me) with
  | none =>
    have hidle : s.pipeline.workers me = .idle := by
      cases hph : s.pipeline.workers me with
      | idle => rfl
      | _ =>
        rw [hph] at hl
        cases hl
    rcases h with h | h
    · obtain ⟨job, hjob, -⟩ := h.job
      rw [hidle] at hjob
      cases hjob
    · obtain ⟨job, seen, hdead⟩ := h.dead
      rw [hidle] at hdead
      cases hdead
  | some l =>
    refine ⟨hpc, ?_⟩
    rcases h with h | h
    · cases t.error with
      | none => exact h.next hl
      | some e =>
        by_cases htry : inTry (s.pipeline.workers me) = true
        · simp only [htry, if_true]
          exact h.interrupt e htry
        · simp only [htry]
          exact h.next hl
    · obtain ⟨job, seen, hdead⟩ := h.dead
      have htry : inTry (s.pipeline.workers me) = false := by rw [hdead]; rfl
      refine .inr ?_
      cases t.error with
      | none => exact h.next hl
      | some e =>
        simp only [htry]
        exact h.next hl

/-- A job that has been claimed is reported on. -/
theorem busy_leads : Leads (step env me false) C (fun s => s.pc = .running k ∧ Busy env me bound s.pipeline)
    fun s => s.pc = .running k ∧ Resting env me bound s.pipeline := by
  have hfun : ∀ n, Leads (step env me false) (fun _ => True)
      (fun s => (s.pc = .running k ∧ Busy env me bound s.pipeline) ∧ stepsLeft (s.pipeline.workers me) = n)
      fun s => (s.pc = .running k ∧ Resting env me bound s.pipeline) ∨
        ((s.pc = .running k ∧ Busy env me bound s.pipeline) ∧ stepsLeft (s.pipeline.workers me) < n) := by
    intro n
    refine Leads.next fun s ls hs _ => ?_
    obtain ⟨⟨hpc, hbusy⟩, rfl⟩ := hs
    obtain ⟨hpc', hadvances⟩ := busy_step (t := ls 0) hpc hbusy
    exact hadvances.symm.imp (fun hrest => ⟨hpc', hrest⟩) fun hb => ⟨⟨hpc', hb.1⟩, hb.2⟩
  exact (Leads.of_decreasing (fun _ _ _ => trivial) _ hfun).restrict fun _ _ => trivial

/-- The next round of the loop: nothing is due, or a job is in hand. -/
theorem claim_step (hpc : s.pc = .running (k + 1)) (halone : Alone env me s.pipeline)
    (hidle : s.pipeline.workers me = .idle) :
    ((∀ j ∈ s.pipeline.db.jobs, isDue env t.now j = false) ∧
        step env me false s t = ⟨s.pipeline, .checking⟩) ∨
      ((step env me false s t).pc = .running k ∧
        Busy env me (backlog s.pipeline.db.jobs) (step env me false s t).pipeline) := by
  have hstep : step env me false s t = s.nextJob env me false t (k + 1) := by
    rw [step, hpc]
    simp only [runPendingStep, hidle, jobStep]
  rw [hstep, nextJob]
  by_cases hdue : ∃ j ∈ s.pipeline.db.jobs, isDue env t.now j = true
  · obtain ⟨j₀, hj₀, hdue₀⟩ := hdue
    obtain ⟨job, db', hclaim⟩ := exists_claimOne_of_isDue hj₀ hdue₀
    have hunlocked : claimOne env Pipeline.unlocked t.now s.pipeline.db = .ok (some job, db') := hclaim
    obtain ⟨j, hj, hdue, rfl, rfl⟩ := claimOne_some hclaim
    have hpipe : Pipeline.step env s.pipeline (.claim me Pipeline.unlocked t.now) = ({ s.pipeline with
        db := { s.pipeline.db with
          jobs := updateWhere (fun r => r.id == j.id) (·.claim t.now) s.pipeline.db.jobs } } : Pipeline).goto me
        (.claimed (j.claim t.now)) := by
      simp [Pipeline.step, hidle, hunlocked]
    have halone' := halone.step (l := .claim me Pipeline.unlocked t.now) rfl
    rw [hpipe] at halone' ⊢
    rw [goto_self, if_neg (by simp)]
    refine .inr ⟨rfl, .inl ⟨halone', ?_, j.claim t.now, ?_, ?_, fun j' hr => ?_⟩⟩
    · rw [goto_self]
      simp
    · rw [goto_self]
      rfl
    · exact mem_updateWhere.2 ⟨j, hj, if_pos (beq_self_eq_true _)⟩
    · have hsum := backlog_update halone.inv.jobIds hj (·.claim t.now)
      have hless := work_reported (live_of_isDue hdue) hr
      show backlog (updateWhere (fun r => r.id == j.id) (·.claim t.now) s.pipeline.db.jobs) + work j' < _
      omega
  · have hnone : ∀ j ∈ s.pipeline.db.jobs, isDue env t.now j = false := by
      intro j hj
      by_contra h
      exact hdue ⟨j, hj, Bool.not_eq_false _ ▸ h⟩
    have hunlocked : claimOne env Pipeline.unlocked t.now s.pipeline.db = .ok (none, s.pipeline.db) :=
      claimOne_none hnone
    have hpipe : Pipeline.step env s.pipeline (.claim me Pipeline.unlocked t.now) = s.pipeline := by
      simp [Pipeline.step, hidle, hunlocked]
    rw [hpipe, if_pos hidle]
    exact .inl ⟨hnone, rfl⟩

/-- `run_pending` comes to an end, and leaves no more to do. -/
theorem running_leads (env : Env) (me bound k : Nat) :
    Leads (step env me false) (fun _ => True) (fun s => s.pc = .running k ∧ Resting env me bound s.pipeline)
      fun s => s.pc = .checking ∧ Resting env me bound s.pipeline := by
  induction k with
  | zero =>
    refine Leads.next fun s ls hs _ => ?_
    obtain ⟨hpc, hrest⟩ := hs
    have hstep : step env me false s (ls 0) = ⟨s.pipeline, .checking⟩ := by
      rw [step, hpc]
      simp only [runPendingStep, hrest.idle, jobStep, nextJob, drained]
      rfl
    rw [hstep]
    exact ⟨rfl, hrest⟩
  | succ k ih =>
    have hclaim : Leads (step env me false) (fun _ => True)
        (fun s => s.pc = .running (k + 1) ∧ Resting env me bound s.pipeline)
        fun s => (s.pc = .checking ∧ Resting env me bound s.pipeline) ∨
          ∃ b, b < bound ∧ s.pc = .running k ∧ Busy env me b s.pipeline := by
      refine Leads.next fun s ls hs _ => ?_
      obtain ⟨hpc, hrest⟩ := hs
      rcases claim_step (t := ls 0) hpc hrest.alone hrest.idle with ⟨-, hstep⟩ | hbusy
      · rw [hstep]
        exact .inl ⟨rfl, hrest⟩
      · exact .inr ⟨_, hrest.less, hbusy⟩
    refine hclaim.trans (fun _ _ _ => trivial) ((Leads.of_imp fun _ => id).or ?_)
    refine Leads.exists_left fun b => ?_
    intro s hs ls hls
    obtain ⟨hb, hbusy⟩ := hs
    refine (busy_leads.trans (fun _ _ _ => trivial) (ih.mono (fun s hs => ?_) fun _ => id)) s hbusy ls hls
    exact ⟨hs.1, hs.2.alone, hs.2.idle, Nat.lt_trans hs.2.less hb⟩

end Loop

/-! ## The rounds of `drain` -/

/-- The clock does not run backwards, and does not stop. -/
def Clock (ticks : Nat → Tick) : Prop :=
  (∀ m n, m ≤ n → (ticks m).now ≤ (ticks n).now) ∧ ∀ time, ∃ n, time < (ticks n).now

/-- The clock has passed every time at which one of the jobs falls due. -/
def Past (env : Env) (jobs : List Job) (ticks : Nat → Tick) : Prop :=
  ∀ n, ∀ m ∈ jobs.filterMap (Job.due? env), m < (ticks n).now

theorem tail_clock : Tail Clock := by
  rintro ticks k ⟨hmono, hgoes⟩
  refine ⟨fun m n h => hmono _ _ (Nat.add_le_add_left h k), fun time => ?_⟩
  obtain ⟨n, hn⟩ := hgoes time
  exact ⟨n, lt_of_lt_of_le hn (hmono _ _ (Nat.le_add_left n k))⟩

theorem tail_past (env : Env) (jobs : List Job) : Tail (Past env jobs) := fun _ _ h _ => h _

/-- A clock that goes on passes any finite number of times. -/
theorem exists_past (env : Env) (jobs : List Job) {ticks : Nat → Tick} (h : Clock ticks) :
    ∃ n, Past env jobs (later ticks n) := by
  have hall : ∀ times : List Time, ∃ n, ∀ k, ∀ m ∈ times, m < (ticks (n + k)).now := by
    intro times
    induction times with
    | nil => exact ⟨0, fun _ _ hm => absurd hm List.not_mem_nil⟩
    | cons time times ih =>
      obtain ⟨n, hn⟩ := ih
      obtain ⟨n', hn'⟩ := h.2 time
      refine ⟨n + n', fun k m hm => ?_⟩
      rcases List.mem_cons.1 hm with rfl | hm
      · exact lt_of_lt_of_le hn' (h.1 _ _ (by omega))
      · have hlater := hn (n' + k) m hm
        rwa [← Nat.add_assoc] at hlater
  exact hall _

/-- The drain has returned, with nothing left to do. -/
structure Finished (env : Env) (me : Nat) (s : Drain) : Prop where
  returned : s.pc = .returned
  idle : s.pipeline.workers me = .idle
  drained : ∀ j ∈ s.pipeline.db.jobs, ¬ Live j

/-- A wait ends at its deadline, if no kick has ended it before. -/
theorem waiting_leads (p : Pipeline) (deadline : Time) :
    Leads (step env me false) Clock (fun s => s = ⟨p, .waiting deadline⟩) fun s => s = ⟨p, .clearing⟩ := by
  refine Leads.wait (fun s t hs => ?_) fun ticks hticks => ?_
  · subst hs
    show (if _ then _ else _) = _ ∨ (if _ then _ else _) = _
    by_cases hover : t.woken = true ∨ deadline ≤ t.now
    · rw [if_pos hover]
      exact .inr rfl
    · rw [if_neg hover]
      exact .inl rfl
  · obtain ⟨n, hn⟩ := hticks.2 deadline
    refine ⟨n, fun s hs => ?_⟩
    subst hs
    exact if_pos (.inr hn.le)

/-- The emptiness check ends the drain, or the next round begins after a wait. -/
theorem checking_leads (p : Pipeline) (hidle : p.workers me = .idle) :
    Leads (step env me false) Clock (fun s => s = ⟨p, .checking⟩)
      fun s => Finished env me s ∨ s = ⟨p, .clearing⟩ := by
  have hcheck : Leads (step env me false) Clock (fun s => s = ⟨p, .checking⟩)
      fun s => Finished env me s ∨ ∃ deadline, s = ⟨p, .waiting deadline⟩ := by
    refine Leads.next fun s ls hs _ => ?_
    subst hs
    simp only [step]
    cases hwait : secondsUntilDue env (ls 0).now p.db with
    | none =>
      refine .inl ⟨rfl, hidle, fun j hj hlive => ?_⟩
      obtain ⟨hq, hr⟩ := secondsUntilDue_eq_none.1 hwait j hj
      exact hlive.elim hq hr
    | some wait => exact .inr ⟨_, rfl⟩
  refine hcheck.trans tail_clock ((Leads.of_imp fun _ => .inl).or (Leads.exists_left fun deadline => ?_))
  exact (waiting_leads p deadline).mono (fun _ => id) fun _ => .inr

/-- The end of a round that has left less to do. -/
theorem round_leads {bound k : Nat} :
    Leads (step env me false) Clock (fun s => s.pc = .running k ∧ Busy env me bound s.pipeline)
      fun s => Finished env me s ∨ (s.pc = .clearing ∧ Resting env me bound s.pipeline) := by
  have hrun := busy_leads.trans (fun _ _ _ => trivial) (running_leads env me bound k)
  refine (hrun.restrict fun _ _ => trivial).trans tail_clock ?_
  intro s hs ls hls
  obtain ⟨hpc, hrest⟩ := hs
  have hs : s = ⟨s.pipeline, .checking⟩ := by rw [← hpc]
  obtain ⟨n, hn⟩ := checking_leads s.pipeline hrest.idle s hs ls hls
  refine ⟨n, hn.imp_right fun hclearing => ?_⟩
  rw [hclearing]
  exact ⟨rfl, hrest⟩

/-- A round over the jobs: the drain is over, there is less to do, or everything is as before. -/
theorem rounds_lead (p : Pipeline) (halone : Alone env me p) (hidle : p.workers me = .idle) :
    Leads (step env me false) Clock (fun s => s = ⟨p, .clearing⟩)
      fun s => Finished env me s ∨ (s.pc = .clearing ∧ Resting env me (backlog p.db.jobs) s.pipeline) := by
  -- the two steps from the clearing of the flag to the first claim
  have hclaim : ∀ ls : Nat → Tick,
      ((∀ j ∈ p.db.jobs, isDue env (ls 1).now j = false) ∧
        after (step env me false) ⟨p, .clearing⟩ ls 2 = ⟨p, .checking⟩) ∨
      ((after (step env me false) ⟨p, .clearing⟩ ls 2).pc = .running 999 ∧
        Busy env me (backlog p.db.jobs) (after (step env me false) ⟨p, .clearing⟩ ls 2).pipeline) :=
    fun ls => claim_step (s := ⟨p, .running 1000⟩) rfl halone hidle
  refine Leads.of_recurring tail_clock (D := fun ls => Clock ls ∧ Past env p.db.jobs ls)
    (fun ls n h => ⟨tail_clock ls n h.1, tail_past env p.db.jobs ls n h.2⟩) (fun ls hls => ?_) ?_ ?_
  · obtain ⟨n, hn⟩ := exists_past env p.db.jobs hls
    exact ⟨n, tail_clock ls n hls, hn⟩
  · intro s hs ls hls
    subst hs
    rcases hclaim ls with ⟨-, hstep⟩ | hbusy
    · obtain ⟨n, hn⟩ := checking_leads p hidle _ hstep _ (tail_clock ls 2 hls)
      refine ⟨2 + n, ?_⟩
      rw [after_add]
      exact hn.imp .inl fun hclearing => ⟨by omega, hclearing⟩
    · obtain ⟨n, hn⟩ := round_leads _ hbusy _ (tail_clock ls 2 hls)
      exact ⟨2 + n, .inl (by rwa [after_add])⟩
  · intro s hs ls hls
    subst hs
    rcases hclaim ls with ⟨hnone, hstep⟩ | hbusy
    · -- nothing is due although every due time has passed: nothing is live
      have hover : ∀ j ∈ p.db.jobs, Job.due? env j = none := by
        intro j hj
        cases hdue : Job.due? env j with
        | none => rfl
        | some m =>
          have hpast := hls.2 1 m (List.mem_filterMap.2 ⟨j, hj, hdue⟩)
          have hisdue := isDue_of_due_lt hdue hpast
          rw [hnone j hj] at hisdue
          cases hisdue
      have hwait : ∀ now, secondsUntilDue env now p.db = none := by
        intro now
        rw [secondsUntilDue_eq, dueTimes, List.filterMap_eq_nil_iff.2 hover]
        rfl
      refine ⟨3, .inl ?_⟩
      rw [after, hstep]
      simp only [step, hwait]
      refine ⟨rfl, hidle, fun j hj hlive => ?_⟩
      obtain ⟨hq, hr⟩ := secondsUntilDue_eq_none.1 (hwait 0) j hj
      exact hlive.elim hq hr
    · obtain ⟨n, hn⟩ := round_leads _ hbusy _ (tail_clock ls 2 hls.1)
      exact ⟨2 + n, by rwa [after_add]⟩

/-- A drain in its loop comes to its end. -/
theorem clearing_leads :
    Leads (step env me false) Clock
      (fun s => s.pc = .clearing ∧ Alone env me s.pipeline ∧ s.pipeline.workers me = .idle) (Finished env me) := by
  refine Leads.of_decreasing tail_clock (fun s => backlog s.pipeline.db.jobs) fun k => ?_
  intro s hs ls hls
  obtain ⟨⟨hpc, halone, hidle⟩, rfl⟩ := hs
  have hs : s = ⟨s.pipeline, .clearing⟩ := by rw [← hpc]
  obtain ⟨n, hn⟩ := rounds_lead s.pipeline halone hidle s hs ls hls
  exact ⟨n, hn.imp_right fun h => ⟨⟨h.1, h.2.alone, h.2.idle⟩, h.2.less⟩⟩

/-! ## From the start to the return -/

/-- The purge of the sessions is nothing to the pipeline. -/
theorem purge_eq (p : Pipeline) (now : Time) :
    ∃ sessions, p.commit (fun db => (purgeExpiredSessions now db).map fun r => ((), r.2)) =
      { p with db := { p.db with sessions } } :=
  ⟨_, rfl⟩

theorem Alone.sessions (h : Alone env me p) (sessions : List Session) :
    Alone env me { p with db := { p.db with sessions } } := by
  refine ⟨?_, h.kept, h.others, h.uploads⟩
  exact h.inv.of_step (Grows.of_documents (le_refl _) rfl)
    ⟨h.inv.docs.ids, h.inv.docs.keys, h.inv.docs.fresh, h.inv.docs.owner⟩ h.inv.jobIds
    (fun j hj => .inl (mem_same j hj)) (fun _ _ hp => .inl hp) fun _ => .inl rfl

/-- What holds throughout a drain: nobody else is at work, and a document that was covered is, while it is
pending. -/
theorem alone_step {id : Uuid} (t : Tick)
    (h : Alone env me s.pipeline ∧ (Pending s.pipeline id → Covered True s.pipeline id)) :
    Alone env me (step env me false s t).pipeline ∧
      (Pending (step env me false s t).pipeline id → Covered True (step env me false s t).pipeline id) := by
  obtain ⟨halone, hcovered⟩ := h
  have hmine : ∀ {l : Pipeline.Label}, Mine me l → Alone env me (Pipeline.step env s.pipeline l) ∧
      (Pending (Pipeline.step env s.pipeline l) id → Covered True (Pipeline.step env s.pipeline l) id) :=
    fun hl => ⟨halone.step hl, covered_of_mine halone hcovered hl⟩
  cases hpc : s.pc with
  | purging =>
    obtain ⟨sessions, hpurged⟩ := purge_eq s.pipeline t.now
    simp only [step, hpc, hpurged]
    exact ⟨halone.sessions sessions, hcovered⟩
  | clearing | returned =>
    simp only [step, hpc]
    exact ⟨halone, hcovered⟩
  | waiting deadline =>
    simp only [step, hpc]
    split <;> exact ⟨halone, hcovered⟩
  | checking =>
    simp only [step, hpc]
    split <;> exact ⟨halone, hcovered⟩
  | running left =>
    simp only [step, hpc, runPendingStep]
    cases hl : jobStep me t (s.pipeline.workers me) with
    | none =>
      cases left with
      | zero => exact ⟨halone, hcovered⟩
      | succ left =>
        simp only [nextJob]
        split
        · exact ⟨halone, hcovered⟩
        · exact hmine (l := .claim me Pipeline.unlocked t.now) rfl
    | some l =>
      cases t.error with
      | none => exact hmine (mine_jobStep hl)
      | some e =>
        by_cases htry : inTry (s.pipeline.workers me) = true
        · simp only [htry, if_true]
          exact hmine (l := .interrupt me e) rfl
        · simp only [htry]
          exact hmine (mine_jobStep hl)

/-- A drain that nobody else interferes with returns, whatever its handlers raise and whatever kicks come,
as long as the clock goes on: there is then no queued or running job, and no document that had one at the
start is pending. -/
theorem drain_returns (hp : Pipeline.Reachable env p) (hworkers : ∀ w, p.workers w = .idle)
    (huploads : UploadsDone p) (me : Nat) (ticks : Nat → Tick) (hclock : Clock ticks) :
    ∃ n, let s := after (step env me false) (Drain.start p) ticks n
      s.pc = .returned ∧ (∀ j ∈ s.pipeline.db.jobs, ¬ Live j) ∧
        ∀ j ∈ p.db.jobs, Live j → ∀ id ∈ j.documentId, ¬ Pending s.pipeline id := by
  have halone : Alone env me p :=
    ⟨inv_of_reachable hp, jobsKept_of_reachable hp, fun w _ => hworkers w, huploads⟩
  obtain ⟨sessions, hpurged⟩ := purge_eq p (ticks 0).now
  have hfirst : (step env me false (Drain.start p) (ticks 0)).pc = .clearing ∧
      Alone env me (step env me false (Drain.start p) (ticks 0)).pipeline ∧
        (step env me false (Drain.start p) (ticks 0)).pipeline.workers me = .idle := by
    refine ⟨rfl, ?_⟩
    simp only [step, Drain.start, hpurged]
    exact ⟨halone.sessions sessions, hworkers me⟩
  obtain ⟨n, hn⟩ := clearing_leads _ hfirst (later ticks 1) (tail_clock ticks 1 hclock)
  refine ⟨1 + n, ?_⟩
  simp only [after_add]
  refine ⟨hn.returned, hn.drained, fun j hj hlive id hid hpending => ?_⟩
  -- at the start the live job covers its document
  have hcovered : Pending p id → Covered True p id := by
    refine fun _ => .inr (.inl ⟨j, hj, hid, hlive, ?_⟩)
    rintro ⟨w, job, seen, hw, -⟩
    rw [hworkers w] at hw
    cases hw
  have hinv : Alone env me (after (step env me false) (Drain.start p) ticks (1 + n)).pipeline ∧
      (Pending (after (step env me false) (Drain.start p) ticks (1 + n)).pipeline id →
        Covered True (after (step env me false) (Drain.start p) ticks (1 + n)).pipeline id) :=
    after_inv (P := fun s : Drain => Alone env me s.pipeline ∧
      (Pending s.pipeline id → Covered True s.pipeline id))
      (fun _ t h => alone_step t h) ⟨halone, hcovered⟩ (1 + n)
  rw [after_add] at hinv
  rcases (hinv.2 hpending).job hinv.1.uploads with ⟨j, hj, -, hlive⟩ | ⟨-, w, job, seen, hw, -⟩
  · exact hn.drained j hj hlive
  · have hidle : (after (step env me false) (after (step env me false) (Drain.start p) ticks 1)
        (later ticks 1) n).pipeline.workers w = .idle := by
      by_cases hme : w = me
      · subst hme
        exact hn.idle
      · exact hinv.1.others w hme
    rw [hidle] at hw
    cases hw

/-- A file has been uploaded, and its job enqueued. -/
def uploadedOnce : List Pipeline.Label :=
  [Pipeline.upload 0 [⟨"a.txt", "alpha", none⟩] (seconds 1), .enqueue 0 (seconds 2)]

/-- A tick each second. -/
def everySecond (n : Nat) : Tick := ⟨seconds n, Pipeline.oneVector, none, false⟩

theorem clock_everySecond : Clock everySecond := by
  have hnow : ∀ n, (everySecond n).now = ((n * 1000000 : Nat) : Int) := fun n => (Nat.cast_mul n 1000000).symm
  refine ⟨fun m n h => ?_, fun time => ⟨time.toNat + 1, ?_⟩⟩
  · rw [hnow, hnow]
    exact Int.ofNat_le.2 (Nat.mul_le_mul_right _ h)
  · rw [hnow]
    refine lt_of_le_of_lt (Int.self_le_toNat time) (Int.ofNat_lt.2 ?_)
    omega

/-- The drain after an upload. -/
theorem drain_returns_after_upload :
    ∃ n, let s := after (step (asciiEnv Pipeline.digest) 0 false)
          (Drain.start (Runs.run (Pipeline.step (asciiEnv Pipeline.digest)) Pipeline.oneOrg uploadedOnce))
          everySecond n
      s.pc = .returned ∧ (∀ j ∈ s.pipeline.db.jobs, ¬ Live j) ∧ ¬ Pending s.pipeline 10 := by
  have hdone : UploadsDone
      (Runs.run (Pipeline.step (asciiEnv Pipeline.digest)) Pipeline.oneOrg uploadedOnce) := by
    intro r
    by_cases hr : r = 0
    · subst hr
      decide
    · have hne : ∀ l ∈ uploadedOnce, uploadOf l ≠ some r := by
        simp [uploadedOnce, Pipeline.upload, uploadOf, Ne.symm hr]
      rw [requests_run_of_ne _ _ hne]
      rfl
  obtain ⟨n, hpc, hdrained, hpending⟩ := drain_returns ⟨_, _, _, rfl, rfl, rfl, rfl⟩ (fun _ => rfl) hdone 0
    everySecond clock_everySecond
  have hjob : ∃ j ∈ (Runs.run (Pipeline.step (asciiEnv Pipeline.digest)) Pipeline.oneOrg uploadedOnce).db.jobs,
      j.status = .queued ∧ j.documentId = some 10 := by
    decide
  obtain ⟨j, hj, hqueued, hid⟩ := hjob
  exact ⟨n, hpc, hdrained, hpending j hj (.inl hqueued) 10 hid⟩

end KnowledgeDesk.Proofs
