import KnowledgeDesk.Jobs

/-!
# The drain's timer and the claim

Both queries are about one due time of a job: `claim_one` takes no job before it and any job after it,
and `seconds_until_due` waits for the earliest of them. At the due time itself a queued job is taken
and a running one is not.
-/

open Table

namespace KnowledgeDesk.Proofs

variable {env : Env} {db : Db}

/-- When a job falls due without another write: queued at its `run_after`, running when it goes stale. -/
def Job.due? (env : Env) (j : Job) : Option Time :=
  match j.status with
  | .queued => some j.runAfter
  | .running => some (j.updatedAt + seconds env.settings.jobStaleAfterSeconds)
  | _ => none

/-- The due times of a table. -/
def dueTimes (env : Env) (db : Db) : List Time := db.jobs.filterMap (Job.due? env)

theorem mem_dueTimes {m : Time} : m ∈ dueTimes env db ↔ ∃ j ∈ db.jobs, Job.due? env j = some m :=
  List.mem_filterMap

theorem secondsUntilDue_eq (now : Time) :
    secondsUntilDue env now db = (dueTimes env db).min?.map fun m => max 0 (m - now) := rfl

/-- A job is not taken before it is due. -/
theorem due_le_of_isDue {t : Time} {j : Job} (h : isDue env t j = true) :
    ∃ m, Job.due? env j = some m ∧ m ≤ t := by
  unfold isDue at h
  unfold Job.due?
  simp only [Bool.or_eq_true, Bool.and_eq_true, beq_iff_eq, decide_eq_true_eq] at h
  rcases h with ⟨hst, hle⟩ | ⟨hst, hlt⟩
  · rw [hst]
    exact ⟨j.runAfter, rfl, hle⟩
  · rw [hst]
    exact ⟨j.updatedAt + seconds env.settings.jobStaleAfterSeconds, rfl, (lt_sub_iff_add_lt.1 hlt).le⟩

/-- A job is taken once its due time has passed. -/
theorem isDue_of_due_lt {t m : Time} {j : Job} (h : Job.due? env j = some m) (hlt : m < t) :
    isDue env t j = true := by
  unfold Job.due? at h
  unfold isDue
  split at h
  · rename_i hst
    obtain rfl := Option.some.inj h
    simp [hst, hlt.le]
  · rename_i hst
    obtain rfl := Option.some.inj h
    have hstale : j.updatedAt < t - seconds env.settings.jobStaleAfterSeconds := lt_sub_iff_add_lt.2 hlt
    simp [hst, hstale]
  · cases h

/-- With no rows locked, nothing is claimed where nothing is due, and a job is where one is. -/
theorem claimOne_none {t : Time} (h : ∀ j ∈ db.jobs, isDue env t j = false) :
    claimOne env (fun _ => false) t db = .ok (none, db) := by
  have hnil : (db.jobs.filter fun j => isDue env t j && !false) = [] := by
    rw [List.filter_eq_nil_iff]
    intro j hj
    simp [h j hj]
  unfold claimOne
  simp only [hnil]
  rfl

theorem exists_claimOne_of_isDue {t : Time} {j : Job} (hj : j ∈ db.jobs) (h : isDue env t j = true) :
    ∃ job db', claimOne env (fun _ => false) t db = .ok (some job, db') := by
  have hmem : j ∈ orderBy (fun a b => decide (a.createdAt ≤ b.createdAt))
      (db.jobs.filter fun j => isDue env t j && !false) := by
    rw [mem_orderBy, List.mem_filter]
    exact ⟨hj, by simp [h]⟩
  obtain ⟨first, rest, hcons⟩ := List.exists_cons_of_ne_nil (List.ne_nil_of_mem hmem)
  unfold claimOne
  simp only [hcons, List.head?_cons]
  exact ⟨_, _, rfl⟩

/-- Before the earliest due time nothing is claimed. -/
theorem claimOne_none_before {t : Time} (h : ∀ m ∈ dueTimes env db, t < m) :
    claimOne env (fun _ => false) t db = .ok (none, db) := by
  refine claimOne_none fun j hj => ?_
  by_contra hdue
  obtain ⟨m, hm, hle⟩ := due_le_of_isDue (Bool.not_eq_false _ ▸ hdue)
  exact absurd (h m (mem_dueTimes.2 ⟨j, hj, hm⟩)) (not_lt.2 hle)

/-- A wait for `m`, clamped at zero, is over at `m`, or at once where `m` has passed. -/
theorem before_due {now m t : Int} (hnow : now ≤ t) (ht : t < now + max 0 (m - now)) : t < m := by omega

theorem after_due {now m t : Int} (ht : now + max 0 (m - now) < t) : m < t := by omega

/-- The timer and the claim agree: with no rows locked and no write in between, nothing is claimed at any
time where the timer has no due time, nothing before the time it waits for, and a job after it. -/
theorem timer_agrees_with_claim (env : Env) (db : Db) (now : Time) :
    (secondsUntilDue env now db = none →
      ∀ t, now ≤ t → claimOne env (fun _ => false) t db = .ok (none, db)) ∧
    ∀ w, secondsUntilDue env now db = some w →
      (∀ t, now ≤ t → t < now + w → claimOne env (fun _ => false) t db = .ok (none, db)) ∧
      ∀ t, now + w < t → ∃ job db', claimOne env (fun _ => false) t db = .ok (some job, db') := by
  rw [secondsUntilDue_eq]
  constructor
  · intro hnone t _
    have hnil : dueTimes env db = [] := by simpa using hnone
    exact claimOne_none_before fun m hm => by simp [hnil] at hm
  · intro w hw
    obtain ⟨m, hm, rfl⟩ := Option.map_eq_some_iff.1 hw
    obtain ⟨hmem, hleast⟩ := List.min?_eq_some_iff.1 hm
    constructor
    · intro t hnow ht
      refine claimOne_none_before fun m' hm' => lt_of_lt_of_le (before_due hnow ht) (hleast m' hm')
    · intro t ht
      obtain ⟨j, hj, hdue⟩ := mem_dueTimes.1 hmem
      exact exists_claimOne_of_isDue hj (isDue_of_due_lt hdue (after_due ht))

end KnowledgeDesk.Proofs
