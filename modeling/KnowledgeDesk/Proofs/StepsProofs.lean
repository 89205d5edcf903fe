import KnowledgeDesk.Proofs.PipelineProofs

/-!
# What a step does to a job, to a worker and to an upload

No step takes a job out of the table (`job_step`), a worker moves from phase to phase (`worker_step`), and
what an upload has still to enqueue it keeps until it is enqueued or the upload dies (`request_step`).
-/

open Table

namespace KnowledgeDesk.Proofs

open Pipeline Runs

variable {env : Env} {s s' : Pipeline}

/-! ## Jobs and workers -/

theorem SameJob.trans {a b c : Job} (h : SameJob a b) (h' : SameJob b c) : SameJob a c :=
  ⟨h'.1.trans h.1, h'.2.1.trans h.2.1, h'.2.2.1.trans h.2.2.1, h'.2.2.2.trans h.2.2.2⟩

theorem SameJob.symm {a b : Job} (h : SameJob a b) : SameJob b a :=
  ⟨h.1.symm, h.2.1.symm, h.2.2.1.symm, h.2.2.2.symm⟩

theorem SameJob.documentId {a b : Job} (h : SameJob a b) : b.documentId = a.documentId := by
  rw [Job.documentId, Job.documentId, h.2.2.2]

/-- What a step can do to a job's row. -/
inductive JobChange (s : Pipeline) : Label → Job → Job → Prop
  | same {l : Label} {j : Job} : JobChange s l j j
  | claimed {w locked now} {j : Job} : JobChange s (.claim w locked now) j (j.claim now)
  | succeeded {w now} {j job : Job} {seen : Option Document} (hphase : s.workers w = .handled job seen)
      (hid : job.id = j.id) : JobChange s (.succeed w now) j (j.succeed now)
  | buried {w now} {j job : Job} {seen : Option Document} {error : Err}
      (hphase : s.workers w = .raised job seen error) (hid : job.id = j.id)
      (hmax : j.maxAttempts ≤ j.attempts) : JobChange s (.fail w now) j (j.bury error.text now)
  | requeued {w now delay} {j job : Job} {seen : Option Document} {error : Err}
      (hphase : s.workers w = .raised job seen error) (hid : job.id = j.id) :
      JobChange s (.fail w now) j (j.requeue error.text delay now)

theorem JobChange.sameJob {l : Label} {j j' : Job} (h : JobChange s l j j') : SameJob j j' := by
  cases h <;> exact ⟨rfl, rfl, rfl, rfl⟩

/-- An update of the rows with one id, where it is a change a step can make of such a row. -/
theorem change_updateWhere {l : Label} {id : Uuid} {f : Job → Job} {jobs : List Job} {j : Job}
    (hj : j ∈ jobs) (hf : j.id = id → JobChange s l j (f j)) :
    ∃ j' ∈ updateWhere (fun j => j.id == id) f jobs, JobChange s l j j' := by
  refine ⟨_, mem_updateWhere.2 ⟨j, hj, rfl⟩, ?_⟩
  split
  · rename_i he
    exact hf (by simpa using he)
  · exact .same

/-- `sync_documents` does not write the queue. -/
theorem sync_jobs (h : Inv env s) (request precheck orgId source items now) :
    (step env s (.sync request precheck orgId source items now)).db.jobs = s.db.jobs := by
  simp only [step]
  split
  · split
    · rename_i htx
      rw [(syncTx_spec h.docs htx).frame]
    · rfl
  · rfl

/-- No step takes a job out of the table, and four change one. -/
theorem job_step (h : Inv env s) (l : Label) {j : Job} (hj : j ∈ s.db.jobs) :
    ∃ j' ∈ (step env s l).db.jobs, JobChange s l j j' := by
  have hsame : ∃ j' ∈ s.db.jobs, JobChange s l j j' := ⟨j, hj, .same⟩
  cases l with
  | sync request precheck orgId source items now => rwa [sync_jobs h]
  | enqueue request now =>
    simp only [step]
    split
    · exact hsame
    · split
      · rename_i htx
        rcases enqueuePending_cases htx with ⟨-, rfl⟩ | ⟨-, j₁, -, -, -, -, -, -, rfl⟩
        · exact hsame
        · exact ⟨j, List.mem_append_left _ hj, .same⟩
      · exact hsame
  | claim worker locked now =>
    simp only [step]
    split
    · split
      · rename_i htx
        obtain ⟨j₁, -, -, -, rfl⟩ := claimOne_some htx
        exact change_updateWhere hj fun _ => .claimed
      · exact hsame
    · exact hsame
  | write worker now =>
    simp only [step]
    split
    · split
      · rename_i htx
        obtain ⟨-, rfl⟩ := writeDocument_ok htx
        exact hsame
      · exact hsame
    · exact hsame
  | succeed worker now =>
    simp only [step]
    split
    · rename_i job seen hph
      exact change_updateWhere hj fun hid => .succeeded hph hid.symm
    · exact hsame
  | fail worker now =>
    simp only [step]
    split
    · rename_i job seen error hph
      split
      · rename_i htx
        rcases markFailed_cases htx with ⟨-, -, rfl⟩ | ⟨j₁, hj₁, hmax, -, rfl⟩ | ⟨j₁, delay, -, -, -, rfl⟩
        · split <;> exact hsame
        · have hchange := change_updateWhere (l := .fail worker now) hj fun hid => .buried hph hid.symm ?_
          · split <;> exact hchange
          · obtain ⟨hm, he⟩ := (find?_eq_some_iff h.jobIds).1 hj₁
            rwa [Table.eq_of_key h.jobIds hj hm (hid.trans he.symm)]
        · have hchange : ∃ j' ∈ updateWhere (fun j => j.id == job.id)
              (·.requeue error.text delay now) s.db.jobs, JobChange s (.fail worker now) j j' :=
            change_updateWhere hj fun hid => .requeued hph hid.symm
          split <;> exact hchange
      · exact hsame
    · exact hsame
  | failDocument worker now =>
    simp only [step]
    split
    · split <;> exact hsame
    · exact hsame
  | updateAcl ctx documentId acl now =>
    simp only [step, commit]
    split
    · rename_i htx
      rw [updateDocumentAclTx_ok htx]
      exact hsame
    · exact hsame
  | deleteDocument ctx documentId =>
    simp only [step, commit]
    split
    · rename_i htx
      rw [deleteDocumentTx_ok htx]
      exact hsame
    · exact hsame
  | read worker =>
    simp only [step]
    split <;> exact hsame
  | embed worker embedDocuments =>
    simp only [step]
    split
    · split <;> exact hsame
    · exact hsame
  | abandon | interrupt | crash => exact hsame

/-- A job after a step is one from before, or one a `jobs.enqueue` has brought. -/
theorem job_origin (h : Inv env s) (l : Label) {j' : Job} (hj : j' ∈ (step env s l).db.jobs) :
    (∃ j ∈ s.db.jobs, j'.idempotencyKey = j.idempotencyKey ∧ j'.documentId = j.documentId) ∨
    ∃ r now p rest, l = .enqueue r now ∧ s.requests r = p :: rest ∧
      j'.idempotencyKey = p.idempotencyKey ∧ j'.documentId = some p.documentId := by
  have hsame : j' ∈ s.db.jobs →
      ∃ j ∈ s.db.jobs, j'.idempotencyKey = j.idempotencyKey ∧ j'.documentId = j.documentId :=
    fun hj => ⟨j', hj, rfl, rfl⟩
  have hupdate : ∀ (p : Job → Bool) (f : Job → Job),
      (∀ j, (f j).idempotencyKey = j.idempotencyKey ∧ (f j).documentId = j.documentId) →
      j' ∈ updateWhere p f s.db.jobs →
      ∃ j ∈ s.db.jobs, j'.idempotencyKey = j.idempotencyKey ∧ j'.documentId = j.documentId := by
    intro p f hf hj
    obtain ⟨j, hm, rfl⟩ := mem_updateWhere.1 hj
    refine ⟨j, hm, ?_⟩
    split
    · exact hf j
    · exact ⟨rfl, rfl⟩
  cases l with
  | sync request precheck orgId source items now => exact .inl (hsame (by rwa [sync_jobs h] at hj))
  | enqueue request now =>
    simp only [step] at hj
    split at hj
    · exact .inl (hsame hj)
    · rename_i p rest hreq
      split at hj
      · rename_i htx
        rcases enqueuePending_cases htx with ⟨-, rfl⟩ | ⟨-, j₁, -, -, -, hpay, -, hkey, rfl⟩
        · exact .inl (hsame hj)
        · rcases List.mem_append.1 hj with hj | hj
          · exact .inl (hsame hj)
          · obtain rfl := List.mem_singleton.1 hj
            exact .inr ⟨request, now, p, rest, rfl, hreq, hkey, by simp [Job.documentId, hpay]⟩
      · exact .inl (hsame hj)
  | claim worker locked now =>
    simp only [step] at hj
    split at hj
    · split at hj
      · rename_i htx
        obtain ⟨j₁, -, -, -, rfl⟩ := claimOne_some htx
        exact .inl (hupdate _ (·.claim now) (fun _ => ⟨rfl, rfl⟩) hj)
      · exact .inl (hsame hj)
    · exact .inl (hsame hj)
  | write worker now =>
    simp only [step] at hj
    split at hj
    · split at hj
      · rename_i htx
        obtain ⟨-, rfl⟩ := writeDocument_ok htx
        exact .inl (hsame hj)
      · exact .inl (hsame hj)
    · exact .inl (hsame hj)
  | succeed worker now =>
    simp only [step] at hj
    split at hj
    · exact .inl (hupdate _ (·.succeed now) (fun _ => ⟨rfl, rfl⟩) hj)
    · exact .inl (hsame hj)
  | fail worker now =>
    simp only [step] at hj
    split at hj
    · split at hj
      · rename_i htx
        rcases markFailed_cases htx with ⟨-, -, rfl⟩ | ⟨j₁, -, -, -, rfl⟩ | ⟨j₁, delay, -, -, -, rfl⟩
        · split at hj <;> exact .inl (hsame hj)
        · split at hj <;> exact .inl (hupdate _ (·.bury _ now) (fun _ => ⟨rfl, rfl⟩) hj)
        · split at hj <;> exact .inl (hupdate _ (·.requeue _ delay now) (fun _ => ⟨rfl, rfl⟩) hj)
      · exact .inl (hsame hj)
    · exact .inl (hsame hj)
  | failDocument worker now =>
    simp only [step] at hj
    split at hj
    · split at hj <;> exact .inl (hsame hj)
    · exact .inl (hsame hj)
  | updateAcl ctx documentId acl now =>
    simp only [step, commit] at hj
    split at hj
    · rename_i htx
      rw [updateDocumentAclTx_ok htx] at hj
      exact .inl (hsame hj)
    · exact .inl (hsame hj)
  | deleteDocument ctx documentId =>
    simp only [step, commit] at hj
    split at hj
    · rename_i htx
      rw [deleteDocumentTx_ok htx] at hj
      exact .inl (hsame hj)
    · exact .inl (hsame hj)
  | read worker =>
    simp only [step] at hj
    split at hj <;> exact .inl (hsame hj)
  | embed worker embedDocuments =>
    simp only [step] at hj
    split at hj
    · split at hj <;> exact .inl (hsame hj)
    · exact .inl (hsame hj)
  | abandon | interrupt | crash => exact .inl (hsame hj)

theorem startHandler_job (job : Job) (db : Db) : (startHandler job db).job? = some job := by
  unfold startHandler
  repeat' split
  all_goals rfl

/-- Where a step can take a worker. -/
inductive Move (env : Env) (s : Pipeline) (w : Nat) : Label → Phase → Prop
  | stay {l : Label} : Move env s w l (s.workers w)
  | claimed {locked now} {j : Job} (hidle : s.workers w = .idle) (hj : j ∈ s.db.jobs)
      (hdb : (step env s (.claim w locked now)).db.jobs =
        updateWhere (fun r => r.id == j.id) (·.claim now) s.db.jobs) :
      Move env s w (.claim w locked now) (.claimed (j.claim now))
  | started {job : Job} (hphase : s.workers w = .claimed job) :
      Move env s w (.read w) (startHandler job s.db)
  | embedded {embedDocuments} {job : Job} {doc : Document} {rows : List Chunk}
      (hphase : s.workers w = .loaded job doc) :
      Move env s w (.embed w embedDocuments) (.embedded job doc rows)
  | written {now} {job : Job} {doc : Document} {rows : List Chunk}
      (hphase : s.workers w = .embedded job doc rows) :
      Move env s w (.write w now) (.handled job (some doc))
  | marked {now} {job : Job} {seen : Option Document} (hphase : s.workers w = .handled job seen) :
      Move env s w (.succeed w now) .idle
  | raised {l : Label} {job : Job} {seen : Option Document} {error : Err}
      (hjob : (s.workers w).job? = some job) (hdead : ∀ job' seen', s.workers w ≠ .dead job' seen') :
      Move env s w l (.raised job seen error)
  | buried {now} {job : Job} {seen : Option Document} {error : Err}
      (hphase : s.workers w = .raised job seen error)
      (hspent : ∀ j, s.db.job? job.id = some j → j.maxAttempts ≤ j.attempts) :
      Move env s w (.fail w now) (.dead job seen)
  | requeued {now} {job : Job} {seen : Option Document} {error : Err}
      (hphase : s.workers w = .raised job seen error) : Move env s w (.fail w now) .idle
  | documentFailed {now} : Move env s w (.failDocument w now) .idle
  | crashed : Move env s w (.crash w) .idle

/-- A step that takes worker `w` to `phase` takes the others nowhere. -/
theorem Move.goto {l : Label} {w w' : Nat} {phase : Phase} (hw : s'.workers = s.workers)
    (h : w' = w → Move env s w l phase) : Move env s w' l ((s'.goto w phase).workers w') := by
  by_cases hww : w' = w
  · subst hww
    simpa [Pipeline.goto] using h rfl
  · simpa [Pipeline.goto, hww, hw] using Move.stay

theorem worker_step (env : Env) (s : Pipeline) (l : Label) (w' : Nat) :
    Move env s w' l ((step env s l).workers w') := by
  have hstay : Move env s w' l (s.workers w') := .stay
  cases l with
  | sync request precheck orgId source items now =>
    simp only [step]
    split
    · split <;> exact hstay
    · exact hstay
  | enqueue request now =>
    simp only [step]
    split
    · exact hstay
    · split <;> exact hstay
  | claim w locked now =>
    have hno : step env s (.claim w locked now) = s →
        Move env s w' (.claim w locked now) ((step env s (.claim w locked now)).workers w') := by
      intro he
      rwa [he]
    cases hph : s.workers w with
    | idle =>
      cases htx : claimOne env locked now s.db with
      | error e => exact hno (by simp [step, hph, htx])
      | ok r =>
        obtain ⟨_ | job, db'⟩ := r
        · exact hno (by simp [step, hph, htx])
        · have hstep : step env s (.claim w locked now) = { s with db := db' }.goto w (.claimed job) := by
            simp [step, hph, htx]
          obtain ⟨j, hj, -, rfl, rfl⟩ := claimOne_some htx
          rw [hstep]
          refine Move.goto rfl fun hw => ?_
          subst hw
          exact .claimed hph hj (by rw [hstep]; rfl)
    | _ => exact hno (by simp [step, hph])
  | read w =>
    simp only [step]
    split
    · rename_i job hph
      exact Move.goto rfl fun hw => .started hph
    · exact hstay
  | embed w embedDocuments =>
    simp only [step]
    split
    · rename_i job doc hph
      split
      · exact Move.goto rfl fun hw => .embedded hph
      · exact Move.goto rfl fun hw => .raised (by rw [hph]; rfl) (by simp [hph])
    · exact hstay
  | write w now =>
    simp only [step]
    split
    · rename_i job doc rows hph
      split
      · exact Move.goto rfl fun hw => .written hph
      · exact Move.goto rfl fun hw => .raised (by rw [hph]; rfl) (by simp [hph])
    · exact hstay
  | succeed w now =>
    simp only [step]
    split
    · rename_i job seen hph
      exact Move.goto rfl fun hw => .marked hph
    · exact hstay
  | interrupt w error =>
    refine Move.goto rfl fun hw => ?_
    cases hph : s.workers w with
    | claimed job | loaded job doc | embedded job doc rows | handled job seen =>
      exact .raised (by rw [hph]; rfl) (by simp [hph])
    | idle | raised | dead =>
      simp only [interrupted]
      rw [← hph]
      exact .stay
  | fail w now =>
    simp only [step]
    split
    · rename_i job seen error hph
      split
      · rename_i outcome db' htx
        split
        · rename_i hdead
          refine Move.goto rfl fun hw => .buried hph fun j hj => ?_
          rcases markFailed_cases htx with ⟨hnone, -⟩ | ⟨j', hj', hmax, -⟩ | ⟨_, _, -, -, hout, -⟩
          · simp [hnone] at hj
          · obtain rfl : j' = j := by simpa [hj'] using hj
            exact hmax
          · simp [hout] at hdead
        · exact Move.goto rfl fun hw => .requeued hph
      · exact hstay
    · exact hstay
  | failDocument w now =>
    simp only [step]
    split
    · split <;> exact Move.goto rfl fun hw => .documentFailed
    · exact hstay
  | crash w => exact Move.goto rfl fun hw => .crashed
  | updateAcl ctx documentId acl now =>
    simp only [step, commit]
    split <;> exact hstay
  | deleteDocument ctx documentId =>
    simp only [step, commit]
    split <;> exact hstay
  | abandon request => exact hstay

/-- A worker about to mark a document failed stays so until it does, or dies. -/
theorem dead_step (env : Env) (l : Label) {w : Nat} {job : Job} {seen : Option Document}
    (h : s.workers w = .dead job seen) :
    (step env s l).workers w = .dead job seen ∨ (∃ now, l = .failDocument w now) ∨ l = .crash w := by
  have hmove := worker_step env s l w
  generalize (step env s l).workers w = phase at hmove
  cases hmove with
  | stay => exact .inl h
  | documentFailed => exact .inr (.inl ⟨_, rfl⟩)
  | crashed => exact .inr (.inr rfl)
  | raised _ hdead => exact absurd h (hdead job seen)
  | claimed hph | started hph | embedded hph | written hph | marked hph | buried hph _ | requeued hph =>
    rw [h] at hph
    cases hph

/-! ## The workers' jobs stay in the table -/

/-- The job a worker executes is in the table. -/
def JobsKept (s : Pipeline) : Prop :=
  ∀ worker job, (s.workers worker).job? = some job → ∃ j ∈ s.db.jobs, SameJob j job

theorem jobsKept_step (h : Inv env s) (hk : JobsKept s) (l : Label) : JobsKept (step env s l) := by
  intro w job hj
  have hold : (s.workers w).job? = some job → ∃ j ∈ (step env s l).db.jobs, SameJob j job := by
    intro hj
    obtain ⟨j, hjm, hs⟩ := hk w job hj
    obtain ⟨j', hjm', hc⟩ := job_step h l hjm
    exact ⟨j', hjm', hc.sameJob.symm.trans hs⟩
  have hmove := worker_step env s l w
  generalize (step env s l).workers w = phase at hj hmove
  cases hmove with
  | stay => exact hold hj
  | @claimed locked now j _ hjm hdb =>
    obtain rfl : j.claim now = job := by simpa [Phase.job?] using hj
    rw [hdb]
    exact ⟨_, mem_updateWhere.2 ⟨j, hjm, rfl⟩, by simp [SameJob]⟩
  | @started job' hph =>
    refine hold ?_
    rw [hph, ← hj, startHandler_job]
    rfl
  | embedded hph | written hph | buried hph _ => exact hold (by rw [hph, ← hj]; rfl)
  | raised hjob _ => exact hold (hjob.trans hj)
  | marked | requeued | documentFailed | crashed => simp [Phase.job?] at hj

/-- The worker's job is the job of the table with its id. -/
theorem worker_documentId (h : Inv env s) (hk : JobsKept s) {w : Nat} {job j : Job}
    (hj : (s.workers w).job? = some job) (hm : j ∈ s.db.jobs) (hid : job.id = j.id) :
    job.documentId = j.documentId := by
  obtain ⟨j', hm', hs⟩ := hk w job hj
  rw [hs.documentId, Table.eq_of_key h.jobIds hm' hm (hs.1.symm.trans hid)]

/-- The jobs are kept in every reachable state. -/
theorem jobsKept_of_reachable (h : Reachable env s) : JobsKept s := by
  obtain ⟨db, n, ls, hd, hc, hj, rfl⟩ := h
  have hinv : Inv env (atRest db n) := inv_of_reachable ⟨db, n, [], hd, hc, hj, rfl⟩
  have hkept : JobsKept (atRest db n) := fun w job hw => by simp [atRest, Phase.job?] at hw
  exact (run_inv (P := fun s => Inv env s ∧ JobsKept s)
    (fun s l hs => ⟨step_inv hs.1 l, jobsKept_step hs.1 hs.2 l⟩) ⟨hinv, hkept⟩ ls).2

/-! ## Uploads -/

/-- The upload a step is of. -/
def uploadOf : Label → Option Nat
  | .sync request .. | .enqueue request _ | .abandon request => some request
  | _ => none

/-- A step leaves the other uploads alone. -/
theorem requests_step_of_ne (env : Env) (s : Pipeline) {l : Label} {r : Nat} (hl : uploadOf l ≠ some r) :
    (step env s l).requests r = s.requests r := by
  cases l with
  | sync request | enqueue request | abandon request =>
    have hr : r ≠ request := by
      rintro rfl
      exact hl rfl
    simp only [step]
    repeat' split
    all_goals simp [hr]
  | claim | read | embed | write | succeed | fail | failDocument | updateAcl | deleteDocument =>
    simp only [step, commit]
    repeat' split
    all_goals rfl
  | interrupt | crash => rfl

theorem requests_run_of_ne (env : Env) (s : Pipeline) {ls : List Label} {r : Nat}
    (hls : ∀ l ∈ ls, uploadOf l ≠ some r) : (run (step env) s ls).requests r = s.requests r := by
  induction ls generalizing s with
  | nil => rfl
  | cons l ls ih =>
    rw [run_cons, ih _ fun l' hl' => hls l' (List.mem_cons_of_mem l hl'),
      requests_step_of_ne env s (hls l List.mem_cons_self)]

/-- A job an upload has still to enqueue stays to be enqueued, until it is or the upload dies. -/
theorem request_step (env : Env) (l : Label) {r : Nat} {p : PendingJob} (h : p ∈ s.requests r) :
    p ∈ (step env s l).requests r ∨ (∃ now rest, l = .enqueue r now ∧ s.requests r = p :: rest) ∨
      l = .abandon r := by
  by_cases hl : uploadOf l = some r
  · cases l with
    | sync request precheck orgId source items now =>
      obtain rfl : request = r := by simpa [uploadOf] using hl
      have hbusy : s.requests request ≠ [] := List.ne_nil_of_mem h
      exact .inl (by simpa [step, hbusy] using h)
    | enqueue request now =>
      obtain rfl : request = r := by simpa [uploadOf] using hl
      obtain ⟨p₁, rest, hreq⟩ := List.exists_cons_of_ne_nil (List.ne_nil_of_mem h)
      rw [hreq] at h
      rcases List.mem_cons.1 h with rfl | hrest
      · exact .inr (.inl ⟨now, rest, rfl, hreq⟩)
      · refine .inl ?_
        simp only [step, hreq]
        split
        · simpa using hrest
        · rwa [hreq]
    | abandon request => exact .inr (.inr (by simpa [uploadOf] using hl))
    | _ => simp [uploadOf] at hl
  · exact .inl (by rwa [requests_step_of_ne env s hl])

/-- What an upload has to enqueue after a step it had to before, or the step is its document transaction. -/
theorem request_origin (env : Env) (s : Pipeline) (l : Label) {r : Nat} {p : PendingJob}
    (h : p ∈ (step env s l).requests r) :
    p ∈ s.requests r ∨ ∃ precheck orgId source items now result jobs db',
      l = .sync r precheck orgId source items now ∧ s.requests r = [] ∧
      syncTx env precheck orgId source items s.nextId now s.db = .ok ((result, jobs), db') ∧
      (step env s l).db = db' ∧ p ∈ jobs := by
  by_cases hl : uploadOf l = some r
  · cases l with
    | sync request precheck orgId source items now =>
      obtain rfl : request = r := by simpa [uploadOf] using hl
      by_cases hidle : s.requests request = []
      · cases htx : syncTx env precheck orgId source items s.nextId now s.db with
        | error e => simp [step, hidle, htx] at h
        | ok res =>
          obtain ⟨⟨result, jobs⟩, db'⟩ := res
          refine .inr ⟨precheck, orgId, source, items, now, result, jobs, db', rfl, hidle, htx, ?_, ?_⟩
          · simp [step, hidle, htx]
          · simpa [step, hidle, htx] using h
      · exact .inl (by simpa [step, hidle] using h)
    | enqueue request now =>
      obtain rfl : request = r := by simpa [uploadOf] using hl
      refine .inl ?_
      simp only [step] at h
      split at h
      · exact h
      · rename_i hreq
        split at h
        · simp only [Function.update_self] at h
          rw [hreq]
          exact List.mem_cons_of_mem _ h
        · exact h
    | abandon request =>
      obtain rfl : request = r := by simpa [uploadOf] using hl
      simp [step] at h
    | _ => simp [uploadOf] at hl
  · exact .inl (by rwa [requests_step_of_ne env s hl] at h)

end KnowledgeDesk.Proofs
