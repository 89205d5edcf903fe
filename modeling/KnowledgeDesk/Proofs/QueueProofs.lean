import KnowledgeDesk.Queue
import KnowledgeDesk.Proofs.JobsProofs

/-!
# The queue: attempts and finished jobs

`queue_step` says what a step does to the jobs. The number of times a job was handed out is its
`attempts`, which `claim_one` raises without a look at `max_attempts`; and a worker reports by job id,
without a look at what has become of the job since it was claimed.
-/

open Table

namespace KnowledgeDesk.Proofs

open Queue Runs

variable {env : Env}

/-! ## What a step does to the jobs -/

/-- The job `claim_one` would hand out: the oldest one that is due and not locked. -/
def nextDue (env : Env) (locked : Uuid → Bool) (now : Time) (db : Db) : Option Job :=
  (orderBy (fun a b => decide (a.createdAt ≤ b.createdAt))
    (db.jobs.filter fun j => isDue env now j && !locked j.id)).head?

theorem mem_of_nextDue {locked : Uuid → Bool} {now : Time} {db : Db} {j : Job}
    (h : nextDue env locked now db = some j) :
    j ∈ db.jobs ∧ isDue env now j = true ∧ locked j.id = false := by
  have hmem := List.mem_of_mem_head? h
  rw [mem_orderBy, List.mem_filter, Bool.and_eq_true, Bool.not_eq_true'] at hmem
  exact hmem

/-- The worker holds a job with this id. -/
def Holds (worker : Nat) (id : Uuid) (s : Queue) : Prop := ∃ job, s.workers worker = some job ∧ job.id = id

/-- What a step does: nothing to the jobs, a new job, a claim, or a report on a job some worker holds. -/
inductive JobsStep (env : Env) (s : Queue) : Label → Queue → Prop
  | same {l : Label} {s' : Queue} (hjobs : s'.db.jobs = s.db.jobs) (hhanded : s'.handed = s.handed)
      (hnext : s.nextId ≤ s'.nextId) (hidle : ∀ worker locked now, l = .claim worker locked now →
        s.workers worker ≠ none ∨ nextDue env locked now s.db = none)
      (hreport : ∀ worker id, Holds worker id s → (∀ now, l ≠ .succeed worker now) ∧
        ((∃ error backoff now, l = .fail worker error backoff now) → s.db.job? id = none)) :
      JobsStep env s l s'
  | enqueued {orgId : Uuid} {kind : String} {payload : Payload} {key : String} {maxAttempts : Option Nat}
      {now : Time} {s' : Queue} (j : Job) (hid : j.id = s.nextId) (hattempts : j.attempts = 0)
      (hstatus : j.status = .queued) (hmax : 0 < env.settings.jobMaxAttempts → 0 < j.maxAttempts)
      (hjobs : s'.db.jobs = s.db.jobs ++ [j])
      (hhanded : s'.handed = s.handed) (hnext : s'.nextId = s.nextId + 1) :
      JobsStep env s (.enqueue orgId kind payload key maxAttempts now) s'
  | claimed {worker : Nat} {locked : Uuid → Bool} {now : Time} {s' : Queue} (j : Job)
      (hfree : s.workers worker = none) (hdue : nextDue env locked now s.db = some j)
      (hjobs : s'.db.jobs = updateWhere (fun r => r.id == j.id) (·.claim now) s.db.jobs)
      (hhanded : s'.handed = Function.update s.handed j.id (s.handed j.id + 1))
      (hnext : s'.nextId = s.nextId) : JobsStep env s (.claim worker locked now) s'
  | succeeded {worker : Nat} {now : Time} {s' : Queue} (id : Uuid) (hholds : Holds worker id s)
      (hjobs : s'.db.jobs = updateWhere (fun r => r.id == id) (·.succeed now) s.db.jobs)
      (hhanded : s'.handed = s.handed) (hnext : s'.nextId = s.nextId) :
      JobsStep env s (.succeed worker now) s'
  | failed {worker : Nat} {error : String} {backoff : Option Nat} {now : Time} {s' : Queue} (j : Job)
      (hholds : Holds worker j.id s) (hj : j ∈ s.db.jobs) (f : Job → Job)
      (hkeep : ∀ r, (f r).id = r.id ∧ (f r).attempts = r.attempts ∧ (f r).maxAttempts = r.maxAttempts)
      (hstatus : (j.maxAttempts ≤ j.attempts ∧ ∀ r, (f r).status = .dead) ∨
        (j.attempts < j.maxAttempts ∧ ∀ r, (f r).status = .queued))
      (hjobs : s'.db.jobs = updateWhere (fun r => r.id == j.id) f s.db.jobs)
      (hhanded : s'.handed = s.handed) (hnext : s'.nextId = s.nextId) :
      JobsStep env s (.fail worker error backoff now) s'

theorem queue_step (env : Env) (s : Queue) (l : Label) : JobsStep env s l (step env s l) := by
  cases l with
  | enqueue orgId kind payload key maxAttempts now =>
    have hsame : ∀ {s' : Queue}, s'.db.jobs = s.db.jobs → s'.handed = s.handed → s.nextId ≤ s'.nextId →
        JobsStep env s (.enqueue orgId kind payload key maxAttempts now) s' :=
      fun hj hh hn => .same hj hh hn (by rintro - - - ⟨⟩)
        fun _ _ _ => ⟨by rintro - ⟨⟩, by rintro ⟨-, -, -, ⟨⟩⟩⟩
    simp only [step, enqueue]
    by_cases htaken : (s.db.jobs.any fun j => j.idempotencyKey == key) = true
    · rw [if_pos htaken]
      exact hsame rfl rfl (Nat.le_succ _)
    · rw [if_neg htaken]
      cases s.db.hasOrg orgId with
      | false => exact hsame rfl rfl (le_refl _)
      | true =>
        refine .enqueued _ rfl rfl rfl (fun hsettings => ?_) rfl rfl rfl
        rcases maxAttempts with _ | _ | n
        · exact hsettings
        · exact hsettings
        · exact Nat.succ_pos n
  | claim worker locked now =>
    have hsame : s.workers worker ≠ none ∨ nextDue env locked now s.db = none →
        JobsStep env s (.claim worker locked now) s := by
      intro hidle
      refine .same rfl rfl (le_refl _) (fun w l n he => ?_)
        fun _ _ _ => ⟨by rintro - ⟨⟩, by rintro ⟨-, -, -, ⟨⟩⟩⟩
      obtain ⟨rfl, rfl, rfl⟩ := Label.claim.inj he
      exact hidle
    simp only [step]
    cases hw : s.workers worker with
    | some job => exact hsame (.inl (by rw [hw]; exact Option.some_ne_none job))
    | none =>
      unfold claimOne
      cases hdue : nextDue env locked now s.db with
      | none =>
        unfold nextDue at hdue
        simp only [hdue]
        exact hsame (.inr hdue)
      | some j =>
        unfold nextDue at hdue
        simp only [hdue]
        exact .claimed j hw hdue rfl rfl rfl
  | succeed worker now =>
    simp only [step]
    cases hw : s.workers worker with
    | some job => exact .succeeded job.id ⟨job, hw, rfl⟩ rfl rfl rfl
    | none =>
      refine .same rfl rfl (le_refl _) (by rintro - - - ⟨⟩) fun w id hworks => ?_
      obtain ⟨job, hj, -⟩ := hworks
      refine ⟨fun n he => ?_, by rintro ⟨-, -, -, ⟨⟩⟩⟩
      obtain ⟨rfl, -⟩ := Label.succeed.inj he
      rw [hw] at hj
      cases hj
  | fail worker error backoff now =>
    simp only [step]
    cases hw : s.workers worker with
    | none =>
      refine .same rfl rfl (le_refl _) (by rintro - - - ⟨⟩) fun w id hworks => ?_
      obtain ⟨job, hj, -⟩ := hworks
      refine ⟨by rintro - ⟨⟩, fun hfails => ?_⟩
      obtain ⟨e, b, n, he⟩ := hfails
      obtain ⟨rfl, -⟩ := Label.fail.inj he
      rw [hw] at hj
      cases hj
    | some job =>
      dsimp only
      cases hmark : markFailed job.id error backoff now s.db with
      | error e =>
        unfold markFailed at hmark
        split at hmark
        · cases hmark
        · split at hmark <;> cases hmark
      | ok r =>
        obtain ⟨outcome, db'⟩ := r
        have hfind : ∀ {j : Job}, s.db.job? job.id = some j → j ∈ s.db.jobs ∧ j.id = job.id := by
          intro j hj
          exact ⟨List.mem_of_find?_eq_some hj, by simpa using List.find?_some hj⟩
        rcases markFailed_cases hmark with ⟨hnone, -, rfl⟩ | ⟨j, hj, hmax, -, rfl⟩ |
          ⟨j, delay, hj, hmax, -, rfl⟩
        · refine .same rfl rfl (le_refl _) (by rintro - - - ⟨⟩) fun w id hworks => ?_
          obtain ⟨job', hj', hid⟩ := hworks
          refine ⟨by rintro - ⟨⟩, fun hfails => ?_⟩
          obtain ⟨e, b, n, he⟩ := hfails
          obtain ⟨rfl, -⟩ := Label.fail.inj he
          rw [hw] at hj'
          obtain rfl := Option.some.inj hj'
          rw [← hid]
          exact hnone
        · obtain ⟨hmem, hid⟩ := hfind hj
          exact .failed j ⟨job, hw, hid.symm⟩ hmem (·.bury error now) (fun _ => ⟨rfl, rfl, rfl⟩)
            (.inl ⟨hmax, fun _ => rfl⟩) (hid ▸ rfl) rfl rfl
        · obtain ⟨hmem, hid⟩ := hfind hj
          exact .failed j ⟨job, hw, hid.symm⟩ hmem (·.requeue error delay now) (fun _ => ⟨rfl, rfl, rfl⟩)
            (.inr ⟨hmax, fun _ => rfl⟩) (hid ▸ rfl) rfl rfl
  | die worker =>
    exact .same rfl rfl (le_refl _) (by rintro - - - ⟨⟩)
      fun _ _ _ => ⟨by rintro - ⟨⟩, by rintro ⟨-, -, -, ⟨⟩⟩⟩

/-! ## The invariant -/

/-- Ids are unique, a job was handed out `attempts` times, and a dead one has none left. -/
structure QueueInv (s : Queue) : Prop where
  ids : (s.db.jobs.map Job.id).Nodup
  fresh : ∀ j ∈ s.db.jobs, j.id < s.nextId
  unseen : ∀ id, s.nextId ≤ id → s.handed id = 0
  handed : ∀ j ∈ s.db.jobs, s.handed j.id = j.attempts
  dead : ∀ j ∈ s.db.jobs, j.status = .dead → j.maxAttempts ≤ j.attempts

theorem queueInv_start {db : Db} (hdb : db.jobs = []) (nextId : Uuid) :
    QueueInv (Queue.start db nextId) := by
  have hno : ∀ j, j ∉ (Queue.start db nextId).db.jobs := by
    intro j hj
    have hj' : j ∈ db.jobs := hj
    rw [hdb] at hj'
    exact absurd hj' List.not_mem_nil
  refine ⟨?_, fun j hj => absurd hj (hno j), fun _ _ => rfl, fun j hj => absurd hj (hno j),
    fun j hj => absurd hj (hno j)⟩
  show (db.jobs.map Job.id).Nodup
  rw [hdb]
  exact List.nodup_nil

/-- An update of one row that keeps the counters, and marks it dead only when no attempt is left. -/
theorem QueueInv.report {s s' : Queue} (h : QueueInv s) {id : Uuid} {f : Job → Job}
    (hkeep : ∀ r, (f r).id = r.id ∧ (f r).attempts = r.attempts ∧ (f r).maxAttempts = r.maxAttempts)
    (hdead : ∀ r ∈ s.db.jobs, r.id = id → (f r).status = .dead → r.maxAttempts ≤ r.attempts)
    (hjobs : s'.db.jobs = updateWhere (fun r => r.id == id) f s.db.jobs) (hhanded : s'.handed = s.handed)
    (hnext : s'.nextId = s.nextId) : QueueInv s' := by
  have hold : ∀ j ∈ s'.db.jobs, ∃ r ∈ s.db.jobs, j.id = r.id ∧ j.attempts = r.attempts ∧
      j.maxAttempts = r.maxAttempts ∧ (j.status = .dead → r.maxAttempts ≤ r.attempts) := by
    intro j hj
    rw [hjobs] at hj
    obtain ⟨r, hr, rfl⟩ := mem_updateWhere.1 hj
    refine ⟨r, hr, ?_⟩
    by_cases hid : (r.id == id) = true
    · rw [if_pos hid]
      exact ⟨(hkeep r).1, (hkeep r).2.1, (hkeep r).2.2, hdead r hr (eq_of_beq hid)⟩
    · rw [if_neg hid]
      exact ⟨rfl, rfl, rfl, h.dead r hr⟩
  refine ⟨?_, fun j hj => ?_, fun i hi => ?_, fun j hj => ?_, fun j hj hd => ?_⟩
  · rw [hjobs, map_updateWhere Job.id fun r => (hkeep r).1]
    exact h.ids
  · obtain ⟨r, hr, hid, -⟩ := hold j hj
    rw [hid, hnext]
    exact h.fresh r hr
  · rw [hhanded]
    exact h.unseen i (hnext ▸ hi)
  · obtain ⟨r, hr, hid, hattempts, -⟩ := hold j hj
    rw [hhanded, hid, hattempts]
    exact h.handed r hr
  · obtain ⟨r, hr, -, hattempts, hmax, hbudget⟩ := hold j hj
    rw [hattempts, hmax]
    exact hbudget hd

theorem queueInv_step {s : Queue} (h : QueueInv s) (l : Label) : QueueInv (step env s l) := by
  have hstep := queue_step env s l
  generalize step env s l = s' at hstep
  cases hstep with
  | same hjobs hhanded hnext _ _ =>
    refine ⟨hjobs ▸ h.ids, fun j hj => ?_, fun i hi => ?_, fun j hj => ?_, fun j hj => ?_⟩
    · exact Nat.lt_of_lt_of_le (h.fresh j (hjobs ▸ hj)) hnext
    · rw [hhanded]
      exact h.unseen i (Nat.le_trans hnext hi)
    · rw [hhanded]
      exact h.handed j (hjobs ▸ hj)
    · exact h.dead j (hjobs ▸ hj)
  | enqueued j hid hattempts hstatus _ hjobs hhanded hnext =>
    refine ⟨?_, fun r hr => ?_, fun i hi => ?_, fun r hr => ?_, fun r hr hd => ?_⟩
    · rw [hjobs, List.map_append, List.nodup_append]
      refine ⟨h.ids, List.nodup_singleton _, ?_⟩
      rintro _ ha _ hb rfl
      obtain ⟨r, hr, he⟩ := List.mem_map.1 ha
      have hlt := h.fresh r hr
      rw [he, List.mem_singleton.1 hb, hid] at hlt
      exact absurd hlt (Nat.lt_irrefl _)
    · rw [hjobs] at hr
      rw [hnext]
      rcases List.mem_append.1 hr with hr | hr
      · exact Nat.lt_succ_of_lt (h.fresh r hr)
      · rw [List.mem_singleton.1 hr, hid]
        exact Nat.lt_succ_self _
    · rw [hhanded]
      exact h.unseen i (by rw [hnext] at hi; exact Nat.le_of_succ_le hi)
    · rw [hjobs] at hr
      rw [hhanded]
      rcases List.mem_append.1 hr with hr | hr
      · exact h.handed r hr
      · rw [List.mem_singleton.1 hr, hattempts]
        exact h.unseen j.id (Nat.le_of_eq hid.symm)
    · rw [hjobs] at hr
      rcases List.mem_append.1 hr with hr | hr
      · exact h.dead r hr hd
      · rw [List.mem_singleton.1 hr, hstatus] at hd
        cases hd
  | claimed j hfree hdue hjobs hhanded hnext =>
    rename_i worker locked now
    have hold : ∀ r ∈ s'.db.jobs, ∃ r₀ ∈ s.db.jobs, r.id = r₀.id ∧ r.maxAttempts = r₀.maxAttempts ∧
        ((r.id = j.id ∧ r.attempts = r₀.attempts + 1 ∧ r.status = .running) ∨ (r.id ≠ j.id ∧ r = r₀)) := by
      intro r hr
      rw [hjobs] at hr
      obtain ⟨r₀, hr₀, rfl⟩ := mem_updateWhere.1 hr
      refine ⟨r₀, hr₀, ?_⟩
      by_cases hid : (r₀.id == j.id) = true
      · rw [if_pos hid]
        exact ⟨rfl, rfl, .inl ⟨eq_of_beq hid, rfl, rfl⟩⟩
      · rw [if_neg hid]
        exact ⟨rfl, rfl, .inr ⟨fun he => hid (beq_iff_eq.2 he), rfl⟩⟩
    refine ⟨?_, fun r hr => ?_, fun i hi => ?_, fun r hr => ?_, fun r hr hd => ?_⟩
    · have hid : ∀ r : Job, (r.claim now).id = r.id := fun _ => rfl
      rw [hjobs, map_updateWhere Job.id hid]
      exact h.ids
    · obtain ⟨r₀, hr₀, hid, -⟩ := hold r hr
      rw [hid, hnext]
      exact h.fresh r₀ hr₀
    · have hlt := h.fresh j (mem_of_nextDue hdue).1
      have hne : i ≠ j.id := by
        rintro rfl
        rw [hnext] at hi
        exact absurd hlt (Nat.not_lt.2 hi)
      rw [hhanded, Function.update_of_ne hne]
      exact h.unseen i (hnext ▸ hi)
    · obtain ⟨r₀, hr₀, hid, -, ⟨hj, hattempts, -⟩ | ⟨hj, rfl⟩⟩ := hold r hr
      · rw [hhanded, hj, Function.update_self, hattempts, ← hj, hid, h.handed r₀ hr₀]
      · rw [hhanded, Function.update_of_ne hj]
        exact h.handed r hr₀
    · obtain ⟨r₀, hr₀, -, -, ⟨-, -, hrunning⟩ | ⟨-, rfl⟩⟩ := hold r hr
      · rw [hrunning] at hd
        cases hd
      · exact h.dead r hr₀ hd
  | succeeded id _ hjobs hhanded hnext =>
    refine h.report (f := (·.succeed _)) (fun _ => ⟨rfl, rfl, rfl⟩) (fun r _ _ hd => ?_) hjobs hhanded hnext
    cases hd
  | failed j _ hj f hkeep hstatus hjobs hhanded hnext =>
    refine h.report hkeep (fun r hr hid hd => ?_) hjobs hhanded hnext
    rw [Table.eq_of_key h.ids hr hj hid]
    rcases hstatus with ⟨hmax, -⟩ | ⟨-, hqueued⟩
    · exact hmax
    · rw [hqueued r] at hd
      cases hd

theorem queueInv_of_reachable {s : Queue} (h : Queue.Reachable env s) : QueueInv s := by
  obtain ⟨db, nextId, ls, hdb, rfl⟩ := h
  exact run_inv (P := QueueInv) (fun s l hs => queueInv_step hs l) (queueInv_start hdb nextId) ls

/-! ## Attempts -/

/-- No job has been handed out more often than its `max_attempts`. -/
def WithinBudget (s : Queue) : Prop :=
  ∀ j ∈ s.db.jobs, s.handed j.id ≤ j.maxAttempts ∧ j.attempts ≤ j.maxAttempts

/-- A claim hands out a job whose attempts are used up. -/
def Overdraws (env : Env) (s : Queue) : Label → Prop
  | .claim worker locked now => s.workers worker = none ∧
      ∃ j ∈ nextDue env locked now s.db, j.maxAttempts ≤ j.attempts
  | _ => False

theorem withinBudget_iff {s : Queue} (h : QueueInv s) :
    WithinBudget s ↔ ∀ j ∈ s.db.jobs, j.attempts ≤ j.maxAttempts := by
  refine forall₂_congr fun j hj => ?_
  rw [h.handed j hj, and_self]

theorem withinBudget_step {s : Queue} (h : QueueInv s) (hb : WithinBudget s) (l : Label) :
    WithinBudget (step env s l) ↔ ¬ Overdraws env s l := by
  rw [withinBudget_iff (queueInv_step h l)]
  rw [withinBudget_iff h] at hb
  have hstep := queue_step env s l
  generalize step env s l = s' at hstep
  -- an update of one row that keeps its counters
  have hreport : ∀ {id : Uuid} {f : Job → Job},
      (∀ r, (f r).attempts = r.attempts ∧ (f r).maxAttempts = r.maxAttempts) →
      s'.db.jobs = updateWhere (fun r => r.id == id) f s.db.jobs →
        ∀ j ∈ s'.db.jobs, j.attempts ≤ j.maxAttempts := by
    intro id f hkeep hjobs j hj
    rw [hjobs] at hj
    obtain ⟨r, hr, rfl⟩ := mem_updateWhere.1 hj
    split
    · rw [(hkeep r).1, (hkeep r).2]
      exact hb r hr
    · exact hb r hr
  cases hstep with
  | same hjobs _ _ hidle _ =>
    refine iff_of_true (fun j hj => hb j (hjobs ▸ hj)) fun ho => ?_
    cases l with
    | claim worker locked now =>
      obtain ⟨hfree, j, hdue, -⟩ := ho
      rcases hidle worker locked now rfl with hbusy | hnone
      · exact hbusy hfree
      · rw [hnone] at hdue
        cases hdue
    | _ => exact ho
  | enqueued j _ hattempts _ _ hjobs _ _ =>
    refine iff_of_true (fun r hr => ?_) not_false
    rw [hjobs] at hr
    rcases List.mem_append.1 hr with hr | hr
    · exact hb r hr
    · rw [List.mem_singleton.1 hr, hattempts]
      exact Nat.zero_le _
  | claimed j hfree hdue hjobs hhanded hnext =>
    rename_i worker locked now
    constructor
    · rintro hbudget ⟨-, j', hdue', hmax⟩
      obtain rfl : j' = j := Option.some.inj (hdue'.symm.trans hdue)
      have hmem : j'.claim now ∈ s'.db.jobs := by
        rw [hjobs]
        exact mem_updateWhere.2 ⟨j', (mem_of_nextDue hdue).1, if_pos (beq_self_eq_true _)⟩
      have hover : j'.attempts + 1 ≤ j'.maxAttempts := hbudget _ hmem
      omega
    · intro hno r hr
      rw [hjobs] at hr
      obtain ⟨r₀, hr₀, rfl⟩ := mem_updateWhere.1 hr
      by_cases hid : (r₀.id == j.id) = true
      · rw [if_pos hid, Table.eq_of_key h.ids hr₀ (mem_of_nextDue hdue).1 (eq_of_beq hid)]
        show j.attempts + 1 ≤ j.maxAttempts
        by_contra hmax
        exact hno ⟨hfree, j, hdue, by omega⟩
      · rw [if_neg hid]
        exact hb r₀ hr₀
  | succeeded id _ hjobs _ _ =>
    exact iff_of_true (hreport (f := (·.succeed _)) (fun _ => ⟨rfl, rfl⟩) hjobs) not_false
  | failed j _ _ f hkeep _ hjobs _ _ => exact iff_of_true (hreport (fun r => (hkeep r).2) hjobs) not_false

/-- A queued job has an attempt left. -/
def AttemptsLeft (s : Queue) : Prop := ∀ j ∈ s.db.jobs, j.status = .queued → j.attempts < j.maxAttempts

/-- A job is enqueued with an attempt at least, and `mark_failed` queues it again only while it has one. -/
theorem attemptsLeft_step (hsettings : 0 < env.settings.jobMaxAttempts) {s : Queue} (hinv : QueueInv s)
    (h : AttemptsLeft s) (l : Label) : AttemptsLeft (step env s l) := by
  have hstep := queue_step env s l
  generalize step env s l = s' at hstep
  -- an update of the row of one job
  have hupdate : ∀ {id : Uuid} {f : Job → Job},
      (∀ r ∈ s.db.jobs, r.id = id → (f r).status = .queued → (f r).attempts < (f r).maxAttempts) →
      s'.db.jobs = updateWhere (fun r => r.id == id) f s.db.jobs → AttemptsLeft s' := by
    intro id f hf hjobs j hj
    rw [hjobs] at hj
    obtain ⟨r, hr, rfl⟩ := mem_updateWhere.1 hj
    split
    · rename_i hid
      exact hf r hr (eq_of_beq hid)
    · exact h r hr
  cases hstep with
  | same hjobs _ _ _ _ => exact fun j hj => h j (hjobs ▸ hj)
  | enqueued j _ hattempts _ hmax hjobs _ _ =>
    intro r hr hqueued
    rw [hjobs] at hr
    rcases List.mem_append.1 hr with hr | hr
    · exact h r hr hqueued
    · rw [List.mem_singleton.1 hr, hattempts]
      exact hmax hsettings
  | claimed j _ _ hjobs _ _ => exact hupdate (fun r _ _ hqueued => by cases hqueued) hjobs
  | succeeded id _ hjobs _ _ => exact hupdate (f := (·.succeed _)) (fun r _ _ hqueued => by cases hqueued) hjobs
  | failed j _ hj f hkeep hstatus hjobs _ _ =>
    refine hupdate (fun r hr hid hqueued => ?_) hjobs
    rw [(hkeep r).2.1, (hkeep r).2.2]
    obtain rfl := Table.eq_of_key hinv.ids hr hj hid
    rcases hstatus with ⟨-, hdead⟩ | ⟨hleft, -⟩
    · rw [hdead r] at hqueued
      cases hqueued
    · exact hleft

/-- A worker looks for a job while one that has been handed out for the last time is running, and was
handed out longer ago than the stale limit: whoever got it stalls, or has died. -/
def StallsOnLast (env : Env) (s : Queue) : Label → Prop
  | .claim worker locked now => s.workers worker = none ∧ ∃ j ∈ s.db.jobs, j.status = .running ∧
      j.maxAttempts ≤ j.attempts ∧ j.updatedAt < now - seconds env.settings.jobStaleAfterSeconds ∧
      locked j.id = false
  | _ => False

/-- A claim hands out a job whose attempts are used up only where a worker stalls on the last one. -/
theorem not_overdraws_of_attemptsLeft {s : Queue} (h : AttemptsLeft s) {l : Label}
    (hl : ¬ StallsOnLast env s l) : ¬ Overdraws env s l := by
  cases l with
  | claim worker locked now =>
    rintro ⟨hfree, j, hdue, hmax⟩
    obtain ⟨hj, hisdue, hunlocked⟩ := mem_of_nextDue hdue
    rw [isDue, Bool.or_eq_true, Bool.and_eq_true, Bool.and_eq_true] at hisdue
    rcases hisdue with ⟨hqueued, -⟩ | ⟨hrunning, hstale⟩
    · exact absurd (h j hj (eq_of_beq hqueued)) (Nat.not_lt.2 hmax)
    · exact hl ⟨hfree, j, hj, eq_of_beq hrunning, hmax, of_decide_eq_true hstale, hunlocked⟩
  | _ => exact not_false

theorem withinBudget_start {db : Db} (hdb : db.jobs = []) (nextId : Uuid) :
    WithinBudget (Queue.start db nextId) ∧ AttemptsLeft (Queue.start db nextId) := by
  have hnone : ∀ j, j ∉ (Queue.start db nextId).db.jobs := fun j hj => by
    have hj' : j ∈ db.jobs := hj
    rw [hdb] at hj'
    exact List.not_mem_nil hj'
  exact ⟨fun j hj => absurd hj (hnone j), fun j hj => absurd hj (hnone j)⟩

/-- In a run from a queue without jobs in which nobody looks for a job while a worker stalls on the last
attempt of one, no job is ever handed out more than `max_attempts` times. -/
theorem attempts_bounded_unless_stalled (hsettings : 0 < env.settings.jobMaxAttempts) {db : Db}
    (hdb : db.jobs = []) (nextId : Uuid) (ls : List Label)
    (hls : EachStep (step env) (fun s l => ¬ StallsOnLast env s l) (Queue.start db nextId) ls) :
    Throughout (step env) WithinBudget (Queue.start db nextId) ls := by
  obtain ⟨hbudget, hleft⟩ := withinBudget_start hdb nextId
  have hall := throughout_of_eachStep (P := fun s => QueueInv s ∧ AttemptsLeft s ∧ WithinBudget s)
    (fun s l h hl => ?_) ⟨queueInv_start hdb nextId, hleft, hbudget⟩ hls
  · exact hall.mono fun _ h => h.2.2
  · obtain ⟨hinv, hleft, hbudget⟩ := h
    exact ⟨queueInv_step hinv l, attemptsLeft_step hsettings hinv hleft l,
      (withinBudget_step hinv hbudget l).2 (not_overdraws_of_attemptsLeft hleft hl)⟩

/-- An org, and no jobs. -/
def orgWithoutJobs : Db := { orgs := [⟨1, "acme", "Acme"⟩] }

/-- A job that may be attempted once. -/
def enqueueOnce : Label := .enqueue 1 "noop" [] "k" (some 1) (seconds 1)

/-- A job that may be attempted twice fails, is claimed for the last time, and succeeds; the queue is looked
at in between, and long after. -/
def secondAttempt : List Label :=
  [.enqueue 1 "noop" [] "k" (some 2) (seconds 1), .claim 0 (fun _ => false) (seconds 2),
    .fail 0 "boom" none (seconds 3), .claim 0 (fun _ => false) (seconds 60), .claim 1 (fun _ => false) (seconds 61),
    .succeed 0 (seconds 62), .claim 1 (fun _ => false) (seconds 2000)]

/-- Nobody stalls on a last attempt, seen from the table. -/
def inTimeOnLast (env : Env) (s : Queue) : Label → Bool
  | .claim _ _ now => s.db.jobs.all fun j => !(j.status == .running && decide (j.maxAttempts ≤ j.attempts) &&
      decide (j.updatedAt < now - seconds env.settings.jobStaleAfterSeconds))
  | _ => true

theorem not_stallsOnLast {s : Queue} {l : Label} (h : inTimeOnLast env s l = true) : ¬ StallsOnLast env s l := by
  cases l with
  | claim worker locked now =>
    rintro ⟨-, j, hj, hrunning, hmax, hstale, -⟩
    have hj' := List.all_eq_true.1 h j hj
    simp [hrunning, hmax, hstale] at hj'
  | _ => exact not_false

/-- The two attempts stay within the budget. -/
theorem attempts_bounded_second_attempt :
    Throughout (step (asciiEnv id)) WithinBudget (Queue.start orgWithoutJobs 10) secondAttempt := by
  have hintime : EachStep (step (asciiEnv id)) (fun s l => inTimeOnLast (asciiEnv id) s l = true)
      (Queue.start orgWithoutJobs 10) secondAttempt := by
    unfold secondAttempt
    decide
  exact attempts_bounded_unless_stalled (by decide) rfl 10 _ (hintime.mono fun _ _ => not_stallsOnLast)

/-- A worker stalls, and its job is handed out a second time. -/
theorem stale_claim_overdraws :
    ∃ j ∈ (run (step (asciiEnv id)) (Queue.start orgWithoutJobs 10)
      [enqueueOnce, .claim 0 (fun _ => false) (seconds 2), .claim 1 (fun _ => false) (seconds 603)]).db.jobs,
      j.maxAttempts = 1 ∧ j.attempts = 2 := by
  decide

/-! ## Finished jobs -/

/-- The job with this id has this status, and has been handed out this often. -/
def StandsAt (id : Uuid) (status : JobStatus) (handed : Nat) (s : Queue) : Prop :=
  (∃ j ∈ s.db.jobs, j.id = id ∧ j.status = status) ∧ s.handed id = handed

/-- A worker that still holds the job reports the opposite of how it was finished. -/
def ContradictsLate (id : Uuid) (status : JobStatus) (s : Queue) : Label → Prop
  | .fail worker .. => status = .succeeded ∧ Holds worker id s
  | .succeed worker _ => status = .dead ∧ Holds worker id s
  | _ => False

theorem standsAt_step {s : Queue} (h : QueueInv s) {id : Uuid} {status : JobStatus} {handed : Nat}
    (hfinal : status = .succeeded ∨ status = .dead) (hs : StandsAt id status handed s) (l : Label) :
    StandsAt id status handed (step env s l) ↔ ¬ ContradictsLate id status s l := by
  obtain ⟨⟨j, hj, hid, hstatus⟩, hcount⟩ := hs
  have hnotdue : ∀ now, isDue env now j = false := by
    intro now
    unfold isDue
    rw [hstatus]
    rcases hfinal with rfl | rfl <;> rfl
  have hstep := queue_step env s l
  generalize step env s l = s' at hstep
  -- the row of the job after an update of one row
  have hother : ∀ {i : Uuid} {f : Job → Job},
      s'.db.jobs = updateWhere (fun r => r.id == i) f s.db.jobs → i ≠ id → j ∈ s'.db.jobs := by
    intro i f hjobs hne
    rw [hjobs]
    refine mem_updateWhere.2 ⟨j, hj, if_neg ?_⟩
    rw [hid, beq_iff_eq]
    exact Ne.symm hne
  have hself : ∀ {f : Job → Job}, s'.db.jobs = updateWhere (fun r => r.id == id) f s.db.jobs →
      (∀ r, (f r).id = r.id) → ((∃ r ∈ s'.db.jobs, r.id = id ∧ r.status = status) ↔ (f j).status = status) := by
    intro f hjobs hf
    rw [hjobs]
    constructor
    · rintro ⟨r, hr, hrid, hrs⟩
      obtain ⟨r₀, hr₀, rfl⟩ := mem_updateWhere.1 hr
      have hid₀ : r₀.id = id := by
        split at hrid
        · exact (hf r₀).symm.trans hrid
        · exact hrid
      obtain rfl : r₀ = j := Table.eq_of_key h.ids hr₀ hj (hid₀.trans hid.symm)
      rwa [if_pos (beq_iff_eq.2 hid₀)] at hrs
    · intro hfs
      exact ⟨f j, mem_updateWhere.2 ⟨j, hj, if_pos (beq_iff_eq.2 hid)⟩, (hf j).trans hid, hfs⟩
  cases hstep with
  | same hjobs hhanded _ _ hreport =>
    refine iff_of_true ⟨⟨j, hjobs ▸ hj, hid, hstatus⟩, hhanded ▸ hcount⟩ fun hc => ?_
    cases l with
    | fail worker error backoff now =>
      have hnone := (hreport worker id hc.2).2 ⟨error, backoff, now, rfl⟩
      rw [Db.job?, List.find?_eq_none] at hnone
      exact hnone j hj (beq_iff_eq.2 hid)
    | succeed worker now => exact (hreport worker id hc.2).1 now rfl
    | _ => exact hc
  | enqueued j' _ _ _ _ hjobs hhanded _ =>
    refine iff_of_true ⟨⟨j, ?_, hid, hstatus⟩, hhanded ▸ hcount⟩ not_false
    rw [hjobs]
    exact List.mem_append_left _ hj
  | claimed j' _ hdue hjobs hhanded _ =>
    have hne : j'.id ≠ id := by
      intro he
      have hsame : j' = j := Table.eq_of_key h.ids (mem_of_nextDue hdue).1 hj (he.trans hid.symm)
      have hd := (mem_of_nextDue hdue).2.1
      rw [hsame, hnotdue] at hd
      cases hd
    refine iff_of_true ⟨⟨j, hother hjobs hne, hid, hstatus⟩, ?_⟩ not_false
    rw [hhanded, Function.update_of_ne (Ne.symm hne)]
    exact hcount
  | succeeded i hholds hjobs hhanded _ =>
    rename_i worker now hnext
    by_cases hi : i = id
    · subst hi
      unfold StandsAt
      rw [hself (f := (·.succeed now)) hjobs fun _ => rfl, hhanded]
      show (JobStatus.succeeded = status ∧ s.handed i = handed) ↔ ¬ (status = .dead ∧ Holds worker i s)
      rcases hfinal with rfl | rfl
      · exact iff_of_true ⟨rfl, hcount⟩ fun hc => nomatch hc.1
      · exact iff_of_false (fun hc => nomatch hc.1) fun hn => hn ⟨rfl, hholds⟩
    · refine iff_of_true ⟨⟨j, hother hjobs hi, hid, hstatus⟩, hhanded ▸ hcount⟩ ?_
      rintro ⟨-, job, hjob, he⟩
      obtain ⟨job', hjob', he'⟩ := hholds
      rw [hjob] at hjob'
      exact hi (he'.symm.trans (Option.some.inj hjob' ▸ he))
  | failed j' hholds hj' f hkeep hresult hjobs hhanded _ =>
    rename_i worker error backoff now hnext
    by_cases hi : j'.id = id
    · obtain rfl : j' = j := Table.eq_of_key h.ids hj' hj (hi.trans hid.symm)
      rw [hi] at hjobs hholds
      unfold StandsAt
      rw [hself hjobs fun r => (hkeep r).1, hhanded]
      show ((f j').status = status ∧ s.handed id = handed) ↔ ¬ (status = .succeeded ∧ Holds worker id s)
      rcases hfinal with rfl | rfl
      · refine iff_of_false (fun hc => ?_) fun hn => hn ⟨rfl, hholds⟩
        rcases hresult with ⟨-, hf⟩ | ⟨-, hf⟩
        · rw [hf] at hc
          cases hc.1
        · rw [hf] at hc
          cases hc.1
      · refine iff_of_true ⟨?_, hcount⟩ fun hc => nomatch hc.1
        rcases hresult with ⟨-, hf⟩ | ⟨hmax, -⟩
        · exact hf j'
        · exact absurd (h.dead j' hj hstatus) (Nat.not_le.2 hmax)
    · refine iff_of_true ⟨⟨j, hother hjobs hi, hid, hstatus⟩, hhanded ▸ hcount⟩ ?_
      rintro ⟨-, job, hjob, he⟩
      obtain ⟨job', hjob', he'⟩ := hholds
      rw [hjob] at hjob'
      exact hi (he'.symm.trans (Option.some.inj hjob' ▸ he))

/-- Once a job has succeeded or is dead it keeps this status, and is not handed out again, iff no worker
that still holds it reports a failure of the succeeded job, or a success of the dead one. -/
theorem finished_stays_iff {s : Queue} (hs : Queue.Reachable env s) {j : Job} (hj : j ∈ s.db.jobs)
    (hfinal : j.status = .succeeded ∨ j.status = .dead) (ls : List Label) :
    Throughout (step env) (StandsAt j.id j.status (s.handed j.id)) s ls ↔
      EachStep (step env) (fun s l => ¬ ContradictsLate j.id j.status s l) s ls :=
  throughout_iff_eachStep (fun _ l h => queueInv_step h l)
    (fun _ l h hst => standsAt_step h hfinal hst l) (queueInv_of_reachable hs) ⟨⟨j, hj, rfl, rfl⟩, rfl⟩

/-- A job is handed to a worker, goes stale, is handed to another, and succeeds there. -/
def succeededElsewhere : List Label :=
  [.enqueue 1 "noop" [] "k" none (seconds 1), .claim 0 (fun _ => false) (seconds 2),
    .claim 1 (fun _ => false) (seconds 603), .succeed 1 (seconds 604)]

/-- Its row then. -/
def succeededJob : Job where
  id := 10
  orgId := 1
  kind := "noop"
  payload := []
  idempotencyKey := "k"
  status := .succeeded
  attempts := 2
  maxAttempts := 3
  lastError := none
  runAfter := seconds 1
  createdAt := seconds 1
  updatedAt := seconds 604

theorem reachable_succeededElsewhere : Queue.Reachable (asciiEnv id)
    (run (step (asciiEnv id)) (Queue.start orgWithoutJobs 10) succeededElsewhere) :=
  ⟨_, _, _, rfl, rfl⟩

/-- The first worker dies: the job stays as it is. -/
theorem finished_stays_after_death :
    let s := run (step (asciiEnv id)) (Queue.start orgWithoutJobs 10) succeededElsewhere
    Throughout (step (asciiEnv id)) (StandsAt 10 .succeeded (s.handed 10)) s
      [.die 0, .claim 1 (fun _ => false) (seconds 2000)] :=
  (finished_stays_iff reachable_succeededElsewhere (j := succeededJob) (by decide) (.inl rfl) _).2
    ⟨not_false, not_false, trivial⟩

/-- The first worker comes back with a failure: the job is queued again. -/
theorem late_failure_requeues :
    let s := run (step (asciiEnv id)) (Queue.start orgWithoutJobs 10) succeededElsewhere
    succeededJob ∈ s.db.jobs ∧ ∃ j ∈ (step (asciiEnv id) s (.fail 0 "boom" none (seconds 605))).db.jobs,
      j.id = succeededJob.id ∧ j.status = .queued := by
  decide

end KnowledgeDesk.Proofs
