import KnowledgeDesk.Proofs.QueueProofs
import KnowledgeDesk.Proofs.TimerProofs

/-!
# Workers that report in time

`job_stale_after_seconds` is a lease. While no claim finds a worker that has held its job for longer, no
two workers hold one job, whatever worker dies; a finished job is then finished for good; and where no
worker dies either, no job is handed out more often than `max_attempts`.
-/

open Table

namespace KnowledgeDesk.Proofs

open Queue Runs

variable {env : Env} {s : Queue}

/-- Whoever still holds a job when another is claimed has claimed it within the stale limit. -/
def InLease (env : Env) (s : Queue) : Label → Prop
  | .claim _ _ now => ∀ worker job, s.workers worker = some job →
      now ≤ job.updatedAt + seconds env.settings.jobStaleAfterSeconds
  | _ => True

/-- No worker dies that holds a job. -/
def Survives (s : Queue) : Label → Prop
  | .die worker => s.workers worker = none
  | _ => True

/-- A job has at most one holder, and its row is as the claim left it. -/
structure HeldOnce (s : Queue) : Prop where
  only : ∀ worker worker' id, Holds worker id s → Holds worker' id s → worker = worker'
  row : ∀ worker job, s.workers worker = some job → job ∈ s.db.jobs ∧ job.status = .running

/-! ## One holder for each job -/

theorem heldOnce_start (db : Db) (nextId : Uuid) : HeldOnce (Queue.start db nextId) := by
  refine ⟨fun w w' id hw _ => ?_, fun w job hw => ?_⟩
  · obtain ⟨job, hjob, -⟩ := hw
    cases hjob
  · cases hw

/-- Workers let go of jobs, and the rows of the jobs still held stay as they are. -/
theorem HeldOnce.shrink {s' : Queue} (hx : HeldOnce s)
    (hw : ∀ worker job, s'.workers worker = some job → s.workers worker = some job ∧ job ∈ s'.db.jobs) :
    HeldOnce s' := by
  refine ⟨fun w w' id hw₁ hw₂ => ?_, fun w job hjob => ?_⟩
  · obtain ⟨job, hjob, hid⟩ := hw₁
    obtain ⟨job', hjob', hid'⟩ := hw₂
    exact hx.only w w' id ⟨job, (hw w job hjob).1, hid⟩ ⟨job', (hw w' job' hjob').1, hid'⟩
  · exact ⟨(hw w job hjob).2, (hx.row w job (hw w job hjob).1).2⟩

/-- A worker lets go of its job without a write. -/
theorem HeldOnce.letGo (hx : HeldOnce s) (worker : Nat) : HeldOnce (s.hold worker none) := by
  refine hx.shrink fun w job hjob => ?_
  by_cases hww : w = worker
  · simp [hold, hww] at hjob
  · have hjob' : s.workers w = some job := by simpa [hold, hww] using hjob
    exact ⟨hjob', (hx.row w job hjob').1⟩

/-- A worker reports on the job it holds, and lets go of it. -/
theorem HeldOnce.report (hx : HeldOnce s) {worker : Nat} {job : Job} (hworker : s.workers worker = some job)
    (f : Job → Job) :
    HeldOnce ({ s with db := { s.db with
      jobs := updateWhere (fun j => j.id == job.id) f s.db.jobs } }.hold worker none) := by
  refine hx.shrink fun w job' hjob' => ?_
  by_cases hww : w = worker
  · simp [hold, hww] at hjob'
  · have hheld : s.workers w = some job' := by simpa [hold, hww] using hjob'
    have hne : ¬ (job'.id == job.id) = true := fun he =>
      hww (hx.only w worker job.id ⟨job', hheld, eq_of_beq he⟩ ⟨job, hworker, rfl⟩)
    exact ⟨hheld, mem_updateWhere.2 ⟨job', (hx.row w job' hheld).1, if_neg hne⟩⟩

/-- A job that is held within the stale limit is not due. -/
theorem not_isDue_of_running {now : Time} {j : Job} (hstatus : j.status = .running)
    (hlease : now ≤ j.updatedAt + seconds env.settings.jobStaleAfterSeconds) : isDue env now j = false := by
  have hfresh : ¬ j.updatedAt < now - seconds env.settings.jobStaleAfterSeconds := by
    rw [lt_sub_iff_add_lt]
    exact not_lt.2 hlease
  simp [isDue, hstatus, hfresh]

/-- A free worker claims a due job, which nobody holds. -/
theorem HeldOnce.claim (hinv : QueueInv s) (hx : HeldOnce s) {worker : Nat} {locked : Uuid → Bool} {now : Time}
    {j : Job} (hfree : s.workers worker = none) (hj : j ∈ s.db.jobs) (hdue : isDue env now j = true)
    (hlease : InLease env s (.claim worker locked now)) {handed : Uuid → Nat} :
    HeldOnce ({ s with
      db := { s.db with jobs := updateWhere (fun r => r.id == j.id) (·.claim now) s.db.jobs }
      handed := handed }.hold worker (some (j.claim now))) := by
  -- whoever holds a job holds another one than the one that is due
  have hother : ∀ w job, s.workers w = some job → job.id ≠ j.id := by
    intro w job hjob he
    obtain ⟨hmem, hrunning⟩ := hx.row w job hjob
    obtain rfl := Table.eq_of_key hinv.ids hmem hj he
    rw [not_isDue_of_running hrunning (hlease w job hjob)] at hdue
    cases hdue
  have hat : ∀ w job, ({ s with
      db := { s.db with jobs := updateWhere (fun r => r.id == j.id) (·.claim now) s.db.jobs }
      handed := handed }.hold worker (some (j.claim now))).workers w = some job →
      (w = worker ∧ job = j.claim now) ∨ (w ≠ worker ∧ s.workers w = some job) := by
    intro w job hjob
    by_cases hww : w = worker
    · exact .inl ⟨hww, by simpa [hold, hww, eq_comm] using hjob⟩
    · exact .inr ⟨hww, by simpa [hold, hww] using hjob⟩
  refine ⟨fun w w' id hw₁ hw₂ => ?_, fun w job hjob => ?_⟩
  · obtain ⟨job, hjob, rfl⟩ := hw₁
    obtain ⟨job', hjob', hid⟩ := hw₂
    rcases hat w job hjob with ⟨rfl, rfl⟩ | ⟨-, hold₁⟩
    · rcases hat w' job' hjob' with ⟨rfl, -⟩ | ⟨-, hold₂⟩
      · rfl
      · exact absurd hid (hother w' job' hold₂)
    · rcases hat w' job' hjob' with ⟨rfl, rfl⟩ | ⟨-, hold₂⟩
      · exact absurd hid.symm (hother w job hold₁)
      · exact hx.only w w' job.id ⟨job, hold₁, rfl⟩ ⟨job', hold₂, hid⟩
  · rcases hat w job hjob with ⟨-, rfl⟩ | ⟨-, hheld⟩
    · exact ⟨mem_updateWhere.2 ⟨j, hj, if_pos (beq_self_eq_true _)⟩, rfl⟩
    · obtain ⟨hmem, hrunning⟩ := hx.row w job hheld
      have hne : ¬ (job.id == j.id) = true := fun he => hother w job hheld (eq_of_beq he)
      exact ⟨mem_updateWhere.2 ⟨job, hmem, if_neg hne⟩, hrunning⟩

theorem heldOnce_step (hinv : QueueInv s) (hx : HeldOnce s) {l : Label} (hl : InLease env s l) :
    HeldOnce (step env s l) := by
  cases l with
  | enqueue orgId kind payload key maxAttempts now =>
    simp only [step]
    split
    · rename_i created db' hok
      refine hx.shrink fun w job hjob => ⟨hjob, ?_⟩
      have hmem := (hx.row w job hjob).1
      unfold enqueue at hok
      split at hok
      · obtain ⟨-, rfl⟩ := Prod.mk.inj (Except.ok.inj hok)
        exact hmem
      · simp only [Db.references] at hok
        split at hok
        · obtain ⟨-, rfl⟩ := Prod.mk.inj (Except.ok.inj hok)
          exact List.mem_append_left _ hmem
        · cases hok
    · exact hx
  | claim worker locked now =>
    simp only [step]
    split
    · rename_i hfree
      split
      · rename_i job db' hok
        obtain ⟨j, hj, hdue, rfl, rfl⟩ := claimOne_some hok
        exact hx.claim hinv hfree hj hdue hl
      · exact hx
    · exact hx
  | succeed worker now =>
    simp only [step]
    split
    · rename_i hworker
      exact hx.report hworker (·.succeed now)
    · exact hx
  | fail worker error backoff now =>
    simp only [step]
    split
    · rename_i job hworker
      split
      · rename_i hok
        rcases markFailed_cases hok with ⟨-, -, rfl⟩ | ⟨-, -, -, -, rfl⟩ | ⟨-, delay, -, -, -, rfl⟩
        · exact hx.letGo worker
        · exact hx.report hworker (·.bury error now)
        · exact hx.report hworker (·.requeue error delay now)
      · exact hx
    · exact hx
  | die worker => exact hx.letGo worker

theorem heldOnce_throughout {db : Db} (hdb : db.jobs = []) (nextId : Uuid) {ls : List Label}
    (hls : EachStep (step env) (InLease env) (Queue.start db nextId) ls) :
    Throughout (step env) (fun s => QueueInv s ∧ HeldOnce s) (Queue.start db nextId) ls :=
  throughout_of_eachStep (fun _ l h hl => ⟨queueInv_step h.1 l, heldOnce_step h.1 h.2 hl⟩)
    ⟨queueInv_start hdb nextId, heldOnce_start db nextId⟩ hls

/-- In a run where no claim finds a job that has been held past the stale limit, no two workers ever hold
one job, and the row of a job that is held is as its claim left it: running. -/
theorem leases_exclude {db : Db} (hdb : db.jobs = []) (nextId : Uuid) (ls : List Label)
    (hls : EachStep (step env) (InLease env) (Queue.start db nextId) ls) :
    Throughout (step env) HeldOnce (Queue.start db nextId) ls :=
  (heldOnce_throughout hdb nextId hls).mono fun _ h => h.2

/-- A worker dies with a job, which another one takes over and finishes. -/
def takenOver : List Label :=
  [.enqueue 1 "noop" [] "k" none (seconds 1), .claim 0 (fun _ => false) (seconds 2), .die 0,
    .claim 1 (fun _ => false) (seconds 603), .succeed 1 (seconds 604)]

theorem takenOver_inLease :
    EachStep (step (asciiEnv id)) (InLease (asciiEnv id)) (Queue.start orgWithoutJobs 10)
      (takenOver ++ [.claim 0 (fun _ => false) (seconds 2000)]) := by
  have hfree : ∀ (s : Queue) (worker : Nat), (∀ w, w ≠ worker → s.workers w = none) →
      ∀ w, (s.hold worker none).workers w = none := by
    intro s worker hs w
    by_cases hw : w = worker
    · simp [hold, hw]
    · simpa [hold, hw] using hs w hw
  have hone : ∀ (s : Queue) (worker : Nat) (job : Option Job), (∀ w, s.workers w = none) →
      ∀ w, w ≠ worker → (s.hold worker job).workers w = none := by
    intro s worker job hs w hw
    simpa [hold, hw] using hs w
  have hnobody : ∀ (s : Queue) (worker : Nat) (locked : Uuid → Bool) (now : Time),
      (∀ w, s.workers w = none) → InLease (asciiEnv id) s (.claim worker locked now) := by
    intro s worker locked now hs w job hjob
    rw [hs w] at hjob
    cases hjob
  exact ⟨trivial, hnobody _ _ _ _ fun _ => rfl, trivial, hnobody _ _ _ _ (hfree _ 0 (hone _ 0 _ fun _ => rfl)),
    trivial, hnobody _ _ _ _ (hfree _ 1 (hone _ 1 _ (hfree _ 0 (hone _ 0 _ fun _ => rfl)))), trivial⟩

/-- The first worker is gone when the second one claims the job. -/
theorem leases_exclude_taken_over :
    Throughout (step (asciiEnv id)) HeldOnce (Queue.start orgWithoutJobs 10) takenOver :=
  leases_exclude rfl 10 takenOver (eachStep_append.1 takenOver_inLease).1

/-! ## Finished jobs -/

/-- Nobody holds a finished job, so nobody reports on it late. -/
theorem not_contradictsLate (hinv : QueueInv s) (hx : HeldOnce s) {j : Job} (hj : j ∈ s.db.jobs)
    (hfinal : j.status = .succeeded ∨ j.status = .dead) (l : Label) : ¬ ContradictsLate j.id j.status s l := by
  have hfree : ∀ worker, ¬ Holds worker j.id s := by
    rintro worker ⟨job, hjob, hid⟩
    obtain ⟨hmem, hrunning⟩ := hx.row worker job hjob
    obtain rfl := Table.eq_of_key hinv.ids hmem hj hid
    rw [hrunning] at hfinal
    rcases hfinal with h | h <;> cases h
  cases l with
  | fail worker error backoff now => exact fun hc => hfree worker hc.2
  | succeed worker now => exact fun hc => hfree worker hc.2
  | _ => exact not_false

/-- In such a run a job that has succeeded or is dead keeps this status, and is not handed out again. -/
theorem leases_finish {db : Db} (hdb : db.jobs = []) (nextId : Uuid) (before after : List Label)
    (hls : EachStep (step env) (InLease env) (Queue.start db nextId) (before ++ after)) {j : Job}
    (hj : j ∈ (run (step env) (Queue.start db nextId) before).db.jobs)
    (hfinal : j.status = .succeeded ∨ j.status = .dead) :
    let s := run (step env) (Queue.start db nextId) before
    Throughout (step env) (StandsAt j.id j.status (s.handed j.id)) s after := by
  intro s
  obtain ⟨hbefore, hafter⟩ := eachStep_append.1 hls
  obtain ⟨hinv, hx⟩ : QueueInv s ∧ HeldOnce s := (heldOnce_throughout hdb nextId hbefore).last
  have hboth := throughout_of_eachStep
    (P := fun t => QueueInv t ∧ HeldOnce t ∧ StandsAt j.id j.status (s.handed j.id) t)
    (fun t l h hl => ?_) ⟨hinv, hx, ⟨j, hj, rfl, rfl⟩, rfl⟩ hafter
  · exact hboth.mono fun _ h => h.2.2
  · obtain ⟨hti, htx, hstands⟩ := h
    refine ⟨queueInv_step hti l, heldOnce_step hti htx hl, (standsAt_step hti hfinal hstands l).2 ?_⟩
    obtain ⟨⟨j', hj', hid, hstatus⟩, -⟩ := hstands
    rw [← hid, ← hstatus]
    exact not_contradictsLate hti htx hj' (hstatus ▸ hfinal) l

/-- The job that was taken over stays as its second worker left it. -/
theorem leases_finish_taken_over :
    let s := run (step (asciiEnv id)) (Queue.start orgWithoutJobs 10) takenOver
    Throughout (step (asciiEnv id)) (StandsAt 10 .succeeded (s.handed 10)) s
      [.claim 0 (fun _ => false) (seconds 2000)] :=
  leases_finish rfl 10 takenOver _ takenOver_inLease (j := succeededJob) (by decide) (.inl rfl)

/-! ## Attempts -/

/-- A running job has a holder. -/
def Attributed (s : Queue) : Prop := ∀ j ∈ s.db.jobs, j.status = .running → ∃ worker, Holds worker j.id s

theorem attributed_start {db : Db} (hdb : db.jobs = []) (nextId : Uuid) :
    Attributed (Queue.start db nextId) := by
  intro j hj
  have hj' : j ∈ db.jobs := hj
  rw [hdb] at hj'
  exact absurd hj' List.not_mem_nil

/-- The job whose holder lets go of another one keeps its holder. -/
theorem Attributed.letGo {worker : Nat} {job : Job} (hworker : s.workers worker = some job) {s' : Queue}
    (hs' : s'.workers = (s.hold worker none).workers) {j : Job} (hj : ∃ w, Holds w j.id s) (hid : j.id ≠ job.id) :
    ∃ w, Holds w j.id s' := by
  obtain ⟨w, job', hjob', hid'⟩ := hj
  have hww : w ≠ worker := by
    rintro rfl
    obtain rfl := Option.some.inj (hworker.symm.trans hjob')
    exact hid hid'.symm
  exact ⟨w, job', by rw [hs']; simpa [hold, hww] using hjob', hid'⟩

/-- The report of a holder does not leave its job running. -/
theorem Attributed.report (h : Attributed s) {worker : Nat} {job : Job} (hworker : s.workers worker = some job)
    {f : Job → Job} (hrunning : ∀ j, (f j).status ≠ .running) :
    Attributed ({ s with db := { s.db with
      jobs := updateWhere (fun j => j.id == job.id) f s.db.jobs } }.hold worker none) := by
  intro j hj
  obtain ⟨r, hr, rfl⟩ := mem_updateWhere.1 hj
  by_cases hid : (r.id == job.id) = true
  · rw [if_pos hid]
    exact fun hrun => absurd hrun (hrunning r)
  · rw [if_neg hid]
    exact fun hrun => Attributed.letGo hworker rfl (h r hr hrun) fun he => hid (beq_iff_eq.2 he)

theorem attributed_step (h : Attributed s) {l : Label} (hl : Survives s l) : Attributed (step env s l) := by
  cases l with
  | enqueue orgId kind payload key maxAttempts now =>
    have hstep := queue_step env s (.enqueue orgId kind payload key maxAttempts now)
    have hworkers : (step env s (.enqueue orgId kind payload key maxAttempts now)).workers = s.workers := by
      simp only [step]
      split <;> rfl
    have hheld : ∀ {id : Uuid}, (∃ w, Holds w id s) →
        ∃ w, Holds w id (step env s (.enqueue orgId kind payload key maxAttempts now)) := by
      rintro id ⟨w, job, hjob, hid⟩
      exact ⟨w, job, by rw [hworkers, hjob], hid⟩
    intro j hj hrun
    cases hstep with
    | same hjobs _ _ _ _ => exact hheld (h j (hjobs ▸ hj) hrun)
    | enqueued j' _ _ hstatus _ hjobs _ _ =>
      rw [hjobs] at hj
      rcases List.mem_append.1 hj with hj | hj
      · exact hheld (h j hj hrun)
      · rw [List.mem_singleton.1 hj, hstatus] at hrun
        cases hrun
  | claim worker locked now =>
    simp only [step]
    split
    · rename_i hfree
      split
      · rename_i job db' hok
        obtain ⟨j, hj, -, rfl, rfl⟩ := claimOne_some hok
        intro r' hr'
        obtain ⟨r, hr, rfl⟩ := mem_updateWhere.1 hr'
        by_cases hid : (r.id == j.id) = true
        · rw [if_pos hid]
          exact fun _ => ⟨worker, j.claim now, by simp [hold], (eq_of_beq hid).symm⟩
        · rw [if_neg hid]
          intro hrun
          obtain ⟨w, job', hjob', hid'⟩ := h r hr hrun
          have hww : w ≠ worker := by
            rintro rfl
            rw [hfree] at hjob'
            cases hjob'
          exact ⟨w, job', by simpa [hold, hww] using hjob', hid'⟩
      · exact h
    · exact h
  | succeed worker now =>
    simp only [step]
    split
    · rename_i hworker
      exact h.report hworker (f := (·.succeed now)) (by simp [Job.succeed])
    · exact h
  | fail worker error backoff now =>
    simp only [step]
    split
    · rename_i job hworker
      split
      · rename_i hok
        rcases markFailed_cases hok with ⟨hnone, -, rfl⟩ | ⟨-, -, -, -, rfl⟩ | ⟨-, delay, -, -, -, rfl⟩
        · -- the row is gone: no job in the table loses its holder
          exact fun r hr hrun => Attributed.letGo hworker rfl (h r hr hrun) fun he =>
            absurd (beq_iff_eq.2 he) (List.find?_eq_none.1 hnone r hr)
        · exact h.report hworker (f := (·.bury error now)) (by simp [Job.bury])
        · exact h.report hworker (f := (·.requeue error delay now)) (by simp [Job.requeue])
      · exact h
    · exact h
  | die worker =>
    intro j hj hrun
    obtain ⟨w, job, hjob, hid⟩ := h j hj hrun
    have hww : w ≠ worker := by
      rintro rfl
      rw [show s.workers w = none from hl] at hjob
      cases hjob
    exact ⟨w, job, by simpa [step, hold, hww] using hjob, hid⟩

/-- Where every running job has a holder in its lease, nobody stalls. -/
theorem not_stallsOnLast_of_inLease (hinv : QueueInv s) (hx : HeldOnce s) (h : Attributed s) {l : Label}
    (hl : InLease env s l) : ¬ StallsOnLast env s l := by
  cases l with
  | claim worker locked now =>
    rintro ⟨-, j, hj, hrunning, -, hstale, -⟩
    obtain ⟨w, job, hjob, hid⟩ := h j hj hrunning
    obtain rfl := Table.eq_of_key hinv.ids (hx.row w job hjob).1 hj hid
    have hlease := hl w job hjob
    lia
  | _ => exact not_false

/-- Where no worker dies holding a job either, no job is ever handed out more than `max_attempts` times. -/
theorem leases_bound_attempts (hsettings : 0 < env.settings.jobMaxAttempts) {db : Db} (hdb : db.jobs = [])
    (nextId : Uuid) (ls : List Label)
    (hls : EachStep (step env) (InLease env) (Queue.start db nextId) ls)
    (hsurvive : EachStep (step env) Survives (Queue.start db nextId) ls) :
    Throughout (step env) WithinBudget (Queue.start db nextId) ls := by
  obtain ⟨hbudget, hleft⟩ := withinBudget_start hdb nextId
  have hall := throughout_of_eachStep
    (P := fun s => QueueInv s ∧ HeldOnce s ∧ Attributed s ∧ AttemptsLeft s ∧ WithinBudget s)
    (fun s l h hl => ?_)
    ⟨queueInv_start hdb nextId, heldOnce_start db nextId, attributed_start hdb nextId, hleft, hbudget⟩
    (eachStep_and.2 ⟨hls, hsurvive⟩)
  · exact hall.mono fun _ h => h.2.2.2.2
  · obtain ⟨hinv, hx, ha, hleft, hbudget⟩ := h
    have hstalls := not_stallsOnLast_of_inLease hinv hx ha hl.1
    exact ⟨queueInv_step hinv l, heldOnce_step hinv hx hl.1, attributed_step ha hl.2,
      attemptsLeft_step hsettings hinv hleft l,
      (withinBudget_step hinv hbudget l).2 (not_overdraws_of_attemptsLeft hleft hstalls)⟩

/-- One claim and its success, in time and by a worker that lives, stay within the budget of one attempt;
another worker dies without a job. -/
theorem leases_bound_attempts_once :
    Throughout (step (asciiEnv id)) WithinBudget (Queue.start orgWithoutJobs 10)
      [enqueueOnce, .claim 0 (fun _ => false) (seconds 2), .die 1, .succeed 0 (seconds 3)] := by
  refine leases_bound_attempts (by decide) rfl 10 _ ⟨trivial, fun w job hjob => ?_, trivial, trivial, trivial⟩
    ⟨trivial, trivial, rfl, trivial, trivial⟩
  cases hjob

end KnowledgeDesk.Proofs
