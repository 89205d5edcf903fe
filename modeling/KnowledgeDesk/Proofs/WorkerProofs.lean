import KnowledgeDesk.Worker

/-!
# No kick is lost

The lock makes stopping and starting one decision each: while a request is in `kick`, a drain that has
reached its emptiness check cannot take it. What the lock does not cover is a drain that raises, which
`_thread` goes on naming until the handler gets the lock.
-/

namespace KnowledgeDesk.Proofs

open Worker

variable {env : Env}

/-- The thread has not returned. -/
def DrainPc.going (pc : DrainPc) : Prop := pc ≠ .stopped ∧ pc ≠ .dead

theorem DrainPc.going_of_live {pc : DrainPc} (h : pc.live = true) : DrainPc.going pc := by
  cases pc <;> simp_all [DrainPc.live, DrainPc.going]

/-- The invariant of the process. -/
structure WorkerInv (s : Worker) : Prop where
  fresh : ∀ n, s.started ≤ n → s.drains n = none
  thread : ∀ n, s.thread = some n → ∃ pc, s.drains n = some pc ∧ DrainPc.going pc
  only : ∀ n pc, s.drains n = some pc → DrainPc.going pc → s.thread = some n
  query : ∀ n, s.drains n = some .querying → s.lock = some (.drain n)
  kicks : ∀ i pc, s.kicks i = some pc → pc ≠ .entering → s.lock = some (.kick i)
  leaving : ∀ i, s.kicks i = some .leaving → s.thread ≠ none
  woken : ∀ i pc n deadline, s.kicks i = some pc → pc ≠ .entering →
    s.drains n = some (.waiting deadline) → s.wake = true

theorem workerInv_start (db : Db) : WorkerInv (start db) := by
  constructor <;> simp [start]

section Moves

variable {s : Worker} {n i : Nat}

/-- The one thread that goes on. -/
theorem WorkerInv.unique (h : WorkerInv s) {m : Nat} {pc pc' : DrainPc} (hn : s.drains n = some pc)
    (hpc : DrainPc.going pc) (hm : s.drains m = some pc') (hpc' : DrainPc.going pc') : m = n :=
  Option.some.inj ((h.only m pc' hm hpc').symm.trans (h.only n pc hn hpc))

/-- A drain thread moves: it stays the one of `_thread` or clears it, takes the lock to query, gives up
no other's lock, and neither stops nor comes to wait past a request that has the lock. -/
theorem WorkerInv.moveDrain (h : WorkerInv s) {pc pc' : DrainPc} (hn : s.drains n = some pc)
    (hpc : DrainPc.going pc) {db : Db} {wake : Bool} {lock : Option LockHolder} {thread : Option Nat}
    (hgoing : DrainPc.going pc' → thread = s.thread) (hdone : ¬ DrainPc.going pc' → thread = none)
    (hquery : pc' = .querying → lock = some (.drain n))
    (hlock : ∀ j, s.lock = some (.kick j) → lock = some (.kick j))
    (hleave : ¬ DrainPc.going pc' → ∀ j, s.kicks j ≠ some .leaving)
    (hwait : ∀ deadline, pc' = .waiting deadline → ∀ j pc, s.kicks j = some pc → pc = .entering) :
    WorkerInv ({ s with db, wake, lock, thread }.moveDrain n pc') := by
  have hself : s.thread = some n := h.only n pc hn hpc
  have hother : ∀ m pc'', m ≠ n → s.drains m = some pc'' → ¬ DrainPc.going pc'' :=
    fun m pc'' hne hm hg => hne (h.unique hn hpc hm hg)
  have hat : ∀ m pc'', ({ s with db, wake, lock, thread }.moveDrain n pc').drains m = some pc'' →
      (m = n ∧ pc'' = pc') ∨ (m ≠ n ∧ s.drains m = some pc'') := by
    intro m pc'' hm
    by_cases hmn : m = n
    · subst hmn
      exact .inl ⟨rfl, by simpa [Worker.moveDrain, eq_comm] using hm⟩
    · exact .inr ⟨hmn, by simpa [Worker.moveDrain, hmn] using hm⟩
  constructor
  · intro m hm
    have hne : m ≠ n := by
      rintro rfl
      exact absurd (h.fresh m hm) (by simp [hn])
    simpa [Worker.moveDrain, hne] using h.fresh m hm
  · intro m hm
    by_cases hg : DrainPc.going pc'
    · have hmn : m = n := Option.some.inj (hm.symm.trans ((hgoing hg).trans hself))
      exact ⟨pc', by simp [Worker.moveDrain, hmn], hg⟩
    · exact absurd (hm.symm.trans (hdone hg)) (by simp)
  · intro m pc'' hm hg
    rcases hat m pc'' hm with ⟨rfl, rfl⟩ | ⟨hne, hm⟩
    · exact (hgoing hg).trans hself
    · exact absurd hg (hother m pc'' hne hm)
  · intro m hm
    rcases hat m _ hm with ⟨rfl, hq⟩ | ⟨hne, hm⟩
    · exact hquery hq.symm
    · exact absurd ⟨nofun, nofun⟩ (hother m _ hne hm)
  · exact fun j pc'' hj hne => hlock j (h.kicks j pc'' hj hne)
  · intro j hj
    by_cases hg : DrainPc.going pc'
    · have hsame : thread = s.thread := hgoing hg
      show thread ≠ none
      rw [hsame]
      exact h.leaving j hj
    · exact absurd hj (hleave hg j)
  · intro j pc'' m deadline hj hne hm
    rcases hat m _ hm with ⟨rfl, hw⟩ | ⟨hmn, hm⟩
    · exact absurd (hwait deadline hw.symm j pc'' hj) hne
    · exact absurd ⟨nofun, nofun⟩ (hother m _ hmn hm)

/-- A drain thread goes on in its loop, without the lock, to a place where it neither queries nor waits. -/
theorem WorkerInv.goOn (h : WorkerInv s) {pc : DrainPc} (pc' : DrainPc) (hn : s.drains n = some pc)
    (hpc : DrainPc.going pc) (hpc' : DrainPc.going pc') (hquery : pc' ≠ .querying)
    (hwait : ∀ deadline, pc' ≠ .waiting deadline) {db : Db} {wake : Bool} :
    WorkerInv ({ s with db, wake }.moveDrain n pc') :=
  h.moveDrain hn hpc (fun _ => rfl) (fun hg => absurd hpc' hg) (fun hq => absurd hq hquery) (fun _ hj => hj)
    (fun hg => absurd hpc' hg) fun deadline hw => absurd hw (hwait deadline)

/-- Nobody is past the lock of `kick` while a drain has it or nobody. -/
theorem WorkerInv.entering_of_lock (h : WorkerInv s) (hlock : ∀ j, s.lock ≠ some (.kick j)) {j : Nat} {pc : KickPc}
    (hj : s.kicks j = some pc) : pc = .entering := by
  by_contra hne
  exact hlock j (h.kicks j pc hj hne)

theorem WorkerInv.advanceDrain (h : WorkerInv s) {now : Time} {pc : DrainPc} (hn : s.drains n = some pc) :
    WorkerInv (Worker.advanceDrain env s n now pc) := by
  cases pc with
  | purging =>
    simp only [Worker.advanceDrain]
    split
    · exact h.goOn .clearing hn ⟨nofun, nofun⟩ ⟨nofun, nofun⟩ nofun nofun
    · exact h.goOn .raised hn ⟨nofun, nofun⟩ ⟨nofun, nofun⟩ nofun nofun
  | clearing => exact h.goOn .running hn ⟨nofun, nofun⟩ ⟨nofun, nofun⟩ nofun nofun
  | running => exact h.goOn .checking hn ⟨nofun, nofun⟩ ⟨nofun, nofun⟩ nofun nofun
  | checking =>
    simp only [Worker.advanceDrain]
    split
    · rename_i hfree
      exact h.moveDrain hn ⟨nofun, nofun⟩ (fun _ => rfl) (fun hg => absurd ⟨nofun, nofun⟩ hg) (fun _ => rfl)
        (fun j hj => by simp [hfree] at hj) (fun hg => absurd ⟨nofun, nofun⟩ hg) nofun
    · exact h
  | querying =>
    have hlock := h.query n hn
    have hentering : ∀ j pc, s.kicks j = some pc → pc = .entering := fun j pc hj =>
      h.entering_of_lock (fun j he => by simp [hlock] at he) hj
    have hself : s.thread = some n := h.only n _ hn ⟨nofun, nofun⟩
    simp only [Worker.advanceDrain]
    split
    · exact h.moveDrain hn ⟨nofun, nofun⟩ (fun hg => absurd rfl hg.1) (fun _ => if_pos hself) nofun
        (fun j hj => by simp [hlock] at hj) (fun _ j hj => nomatch hentering j _ hj) nofun
    · exact h.moveDrain hn ⟨nofun, nofun⟩ (fun _ => rfl) (fun hg => absurd ⟨nofun, nofun⟩ hg) nofun
        (fun j hj => by simp [hlock] at hj) (fun hg => absurd ⟨nofun, nofun⟩ hg) (fun _ _ => hentering)
  | waiting deadline =>
    simp only [Worker.advanceDrain]
    split
    · exact h.goOn .clearing hn ⟨nofun, nofun⟩ ⟨nofun, nofun⟩ nofun nofun
    · exact h
  | raised =>
    simp only [Worker.advanceDrain]
    split
    · rename_i hfree
      exact h.moveDrain hn ⟨nofun, nofun⟩ (fun hg => absurd rfl hg.2) (fun _ => rfl) nofun
        (fun j hj => by simp [hfree] at hj)
        (fun _ j hj => nomatch h.entering_of_lock (fun j he => by simp [hfree] at he) hj) nofun
    · exact h
  | stopped | dead => exact h

theorem WorkerInv.raiseDrain (h : WorkerInv s) {pc : DrainPc} (hn : s.drains n = some pc) :
    WorkerInv (Worker.raiseDrain s n pc) := by
  unfold Worker.raiseDrain
  split
  · rename_i hlive
    refine h.moveDrain hn (DrainPc.going_of_live hlive) (fun _ => rfl) (fun hg => absurd ⟨nofun, nofun⟩ hg) nofun
      (fun j hj => ?_) (fun hg => absurd ⟨nofun, nofun⟩ hg) nofun
    rw [if_neg]
    · exact hj
    · rintro rfl
      simp [h.query n hn] at hj
  · exact h

/-- A request moves: it gives up no other's lock, keeps `_wake` set, has the lock past the entry, has then
set `_wake`, and leaves a thread behind. -/
theorem WorkerInv.moveKick (h : WorkerInv s) {pc' : Option KickPc} {wake : Bool} {lock : Option LockHolder}
    (hdrain : ∀ m, s.lock = some (.drain m) → lock = some (.drain m))
    (hkick : ∀ j, j ≠ i → s.lock = some (.kick j) → lock = some (.kick j))
    (hwake : s.wake = true → wake = true)
    (hself : ∀ pc, pc' = some pc → pc ≠ .entering → lock = some (.kick i))
    (hset : ∀ pc, pc' = some pc → pc ≠ .entering → ∀ m deadline, s.drains m = some (.waiting deadline) → wake = true)
    (hleaving : pc' = some .leaving → s.thread ≠ none) :
    WorkerInv ({ s with wake, lock }.moveKick i pc') := by
  have hat : ∀ j pc, ({ s with wake, lock }.moveKick i pc').kicks j = some pc →
      (j = i ∧ pc' = some pc) ∨ (j ≠ i ∧ s.kicks j = some pc) := by
    intro j pc hj
    by_cases hji : j = i
    · subst hji
      exact .inl ⟨rfl, by simpa [Worker.moveKick] using hj⟩
    · exact .inr ⟨hji, by simpa [Worker.moveKick, hji] using hj⟩
  refine ⟨h.fresh, h.thread, h.only, fun m hm => hdrain m (h.query m hm), fun j pc hj hne => ?_, fun j hj => ?_,
    fun j pc m deadline hj hne hm => ?_⟩
  · rcases hat j pc hj with ⟨rfl, hpc⟩ | ⟨hji, hj⟩
    · exact hself pc hpc hne
    · exact hkick j hji (h.kicks j pc hj hne)
  · rcases hat j _ hj with ⟨-, hpc⟩ | ⟨-, hj⟩
    · exact hleaving hpc
    · exact h.leaving j hj
  · rcases hat j pc hj with ⟨-, hpc⟩ | ⟨-, hj⟩
    · exact hset pc hpc hne m deadline hm
    · exact hwake (h.woken j pc m deadline hj hne hm)

/-- Starting a drain when there is none. -/
theorem WorkerInv.startDrain (h : WorkerInv s) (hnone : s.thread = none) :
    WorkerInv ({ s with thread := some s.started, started := s.started + 1 }.moveDrain s.started .purging) := by
  have hgone : ∀ m pc, s.drains m = some pc → ¬ DrainPc.going pc := by
    intro m pc hm hg
    exact absurd (h.only m pc hm hg) (by simp [hnone])
  have hat : ∀ m pc, ({ s with thread := some s.started, started := s.started + 1 }.moveDrain s.started
      .purging).drains m = some pc → (m = s.started ∧ pc = .purging) ∨ s.drains m = some pc := by
    intro m pc hm
    by_cases hmn : m = s.started
    · subst hmn
      exact .inl ⟨rfl, by simpa [Worker.moveDrain, eq_comm] using hm⟩
    · exact .inr (by simpa [Worker.moveDrain, hmn] using hm)
  refine ⟨fun m hm => ?_, fun m hm => ?_, fun m pc hm hg => ?_, fun m hm => ?_, h.kicks, fun j _ => nofun,
    fun j pc m deadline hj hne hm => ?_⟩
  · have hlt : s.started < m := hm
    simpa [Worker.moveDrain, hlt.ne'] using h.fresh m hlt.le
  · obtain rfl := Option.some.inj hm
    exact ⟨.purging, by simp [Worker.moveDrain], nofun, nofun⟩
  · rcases hat m pc hm with ⟨rfl, -⟩ | hold
    · rfl
    · exact absurd hg (hgone m pc hold)
  · rcases hat m _ hm with ⟨-, hq⟩ | hold
    · exact nomatch hq
    · exact absurd ⟨nofun, nofun⟩ (hgone m _ hold)
  · rcases hat m _ hm with ⟨-, hq⟩ | hold
    · exact nomatch hq
    · exact absurd ⟨nofun, nofun⟩ (hgone m _ hold)

theorem WorkerInv.advanceKick (h : WorkerInv s) (drainInProcess : Bool) {pc : KickPc} (hi : s.kicks i = some pc) :
    WorkerInv (Worker.advanceKick drainInProcess s i pc) := by
  cases pc with
  | entering =>
    simp only [Worker.advanceKick]
    split
    · exact h.moveKick (fun _ hm => hm) (fun _ _ hj => hj) id nofun nofun nofun
    · split
      · rename_i hfree
        exact h.moveKick (fun m hm => by simp [hfree] at hm) (fun j _ hj => by simp [hfree] at hj) (fun _ => rfl)
          (fun _ _ _ => rfl) (fun _ _ _ _ _ _ => rfl) nofun
      · exact h
  | holding =>
    have hwoken := fun m deadline => h.woken i .holding m deadline hi nofun
    have hlock := h.kicks i .holding hi nofun
    simp only [Worker.advanceKick]
    split
    · rename_i hnone
      refine (h.startDrain hnone).moveKick (fun _ hm => hm) (fun _ _ hj => hj) id (fun _ _ _ => hlock)
        (fun _ _ _ m deadline hm => ?_) fun _ => nofun
      exact (h.startDrain hnone).woken i .holding m deadline hi nofun hm
    · rename_i hsome
      exact h.moveKick (fun _ hm => hm) (fun _ _ hj => hj) id (fun _ _ _ => hlock)
        (fun _ _ _ m deadline hm => hwoken m deadline hm) fun _ => hsome
  | leaving =>
    have hlock := h.kicks i .leaving hi nofun
    exact h.moveKick (fun m hm => by simp [hlock] at hm)
      (fun j hji hj => absurd (by simpa [hlock, eq_comm] using hj) hji) id nofun nofun nofun

/-- Every step keeps the invariant. -/
theorem workerInv_step (env : Env) (drainInProcess : Bool) (h : WorkerInv s) (l : Label) :
    WorkerInv (step env drainInProcess s l) := by
  cases l with
  | transact db => exact ⟨h.fresh, h.thread, h.only, h.query, h.kicks, h.leaving, h.woken⟩
  | kick i =>
    simp only [step]
    split
    · exact h.moveKick (fun _ hm => hm) (fun _ _ hj => hj) id
        (fun pc hpc hne => absurd (Option.some.inj hpc).symm hne)
        (fun pc hpc hne => absurd (Option.some.inj hpc).symm hne) nofun
    · exact h
  | advance i =>
    simp only [step]
    split
    · rename_i hi
      exact h.advanceKick drainInProcess hi
    · exact h
  | drain n now =>
    simp only [step]
    split
    · rename_i hn
      exact h.advanceDrain hn
    · exact h
  | fail n =>
    simp only [step]
    split
    · rename_i hn
      exact h.raiseDrain hn
    · exact h

end Moves

/-- The queue has nothing to wait for iff no job is queued or running. -/
theorem secondsUntilDue_eq_none {now : Time} {db : Db} :
    secondsUntilDue env now db = none ↔ ∀ j ∈ db.jobs, j.status ≠ .queued ∧ j.status ≠ .running := by
  simp only [secondsUntilDue, Option.map_eq_none_iff, List.min?_eq_none_iff, List.filterMap_eq_nil_iff]
  refine forall₂_congr fun j _ => ?_
  cases j.status <;> simp

/-! ## What a kick leaves behind -/

/-- A kick that returns leaves a drain that goes on, unless the one there is has just raised. -/
theorem attended_iff {s : Worker} (h : WorkerInv s) {drainInProcess : Bool} {l : Label} (hl : Returns s l) :
    Attended (step env drainInProcess s l) ↔ ¬ Failing s := by
  cases l with
  | advance i =>
    have hi : s.kicks i = some .leaving := hl
    have hstep : step env drainInProcess s (.advance i) = { s with lock := none }.moveKick i none := by
      simp only [step, hi, advanceKick]
    rw [hstep]
    constructor
    · rintro ⟨n, pc, hthread, hpc, hlive, -⟩ ⟨m, hm, hraised⟩
      obtain rfl := Option.some.inj (hm.symm.trans hthread)
      obtain rfl := Option.some.inj (hpc.symm.trans hraised)
      exact nomatch hlive
    · intro hno
      obtain ⟨n, hn⟩ := Option.ne_none_iff_exists'.1 (h.leaving i hi)
      obtain ⟨pc, hpc, hstopped, hdead⟩ := h.thread n hn
      refine ⟨n, pc, hn, hpc, ?_, ?_⟩
      · cases pc with
        | raised => exact absurd ⟨n, hn, hpc⟩ hno
        | stopped => exact absurd rfl hstopped
        | dead => exact absurd rfl hdead
        | _ => rfl
      · rintro deadline rfl
        exact h.woken i .leaving n deadline hi nofun hpc
  | _ => exact hl.elim

/-! ## What a drain does until it stops -/

/-- The thread has raised, and will not stop by the check. -/
def DrainPc.failed (pc : DrainPc) : Prop := pc = .raised ∨ pc = .dead

/-- A drain moves in its own steps only. -/
theorem drains_step_of_ne {s : Worker} (h : WorkerInv s) {drainInProcess : Bool} {n : Nat} {pc : DrainPc}
    (hn : s.drains n = some pc) {l : Label} (hdrain : ∀ now, l ≠ .drain n now) (hfail : l ≠ .fail n) :
    (step env drainInProcess s l).drains n = some pc := by
  have hmoved : ∀ (s' : Worker) (m : Nat) (pc' : DrainPc), s'.drains = s.drains → m ≠ n →
      (s'.moveDrain m pc').drains n = some pc := by
    intro s' m pc' hs hm
    simp [Worker.moveDrain, hs, hm.symm, hn]
  cases l with
  | transact db => exact hn
  | kick i =>
    simp only [step]
    split <;> exact hn
  | advance i =>
    simp only [step]
    split
    · rename_i kpc _
      cases kpc with
      | entering =>
        simp only [advanceKick]
        repeat' split
        all_goals exact hn
      | holding =>
        have hstarted : s.started ≠ n := by
          rintro rfl
          exact absurd (h.fresh s.started (le_refl _)) (by simp [hn])
        simp only [advanceKick]
        split
        · exact hmoved _ s.started .purging rfl hstarted
        · exact hn
      | leaving => exact hn
    · exact hn
  | drain m now =>
    have hm : m ≠ n := fun he => hdrain now (he ▸ rfl)
    simp only [step]
    split
    · rename_i dpc _
      cases dpc <;> simp only [advanceDrain] <;> (repeat' split) <;>
        first
        | exact hn
        | exact hmoved _ m _ rfl hm
    · exact hn
  | fail m =>
    have hm : m ≠ n := fun he => hfail (he ▸ rfl)
    simp only [step]
    split
    · unfold raiseDrain
      split
      · exact hmoved _ m _ rfl hm
      · exact hn
    · exact hn

/-- In its own step a drain goes on in its loop, or out of it when it has seen a queue without a job that
is queued or running; the handler leads nowhere else. -/
theorem advanceDrain_drains (env : Env) {s : Worker} {n : Nat} {pc : DrainPc} (hn : s.drains n = some pc) (now : Time) :
    ∃ pc', (advanceDrain env s n now pc).drains n = some pc' ∧ (DrainPc.failed pc → DrainPc.failed pc') ∧
      (pc.live = true → pc'.live = true ∨ DrainPc.failed pc' ∨ secondsUntilDue env now s.db = none) := by
  have hat : ∀ (s' : Worker) (pc' : DrainPc), (s'.moveDrain n pc').drains n = some pc' := by
    intro s' pc'
    simp [Worker.moveDrain]
  cases pc with
  | purging => exact ⟨.clearing, hat _ _, fun hf => by simp [DrainPc.failed] at hf, fun _ => .inl rfl⟩
  | clearing => exact ⟨.running, hat _ _, fun hf => by simp [DrainPc.failed] at hf, fun _ => .inl rfl⟩
  | running => exact ⟨.checking, hat _ _, fun hf => by simp [DrainPc.failed] at hf, fun _ => .inl rfl⟩
  | checking =>
    simp only [advanceDrain]
    split
    · exact ⟨.querying, hat _ _, fun hf => by simp [DrainPc.failed] at hf, fun _ => .inl rfl⟩
    · exact ⟨.checking, hn, fun hf => by simp [DrainPc.failed] at hf, fun _ => .inl rfl⟩
  | querying =>
    simp only [advanceDrain]
    split
    · rename_i hnone
      exact ⟨.stopped, hat _ _, fun hf => by simp [DrainPc.failed] at hf, fun _ => .inr (.inr hnone)⟩
    · exact ⟨_, hat _ _, fun hf => by simp [DrainPc.failed] at hf, fun _ => .inl rfl⟩
  | waiting deadline =>
    simp only [advanceDrain]
    split
    · exact ⟨.clearing, hat _ _, fun hf => by simp [DrainPc.failed] at hf, fun _ => .inl rfl⟩
    · exact ⟨.waiting deadline, hn, fun hf => by simp [DrainPc.failed] at hf, fun _ => .inl rfl⟩
  | raised =>
    simp only [advanceDrain]
    split
    · exact ⟨.dead, hat _ _, fun _ => .inr rfl, nofun⟩
    · exact ⟨.raised, hn, fun _ => .inl rfl, nofun⟩
  | stopped => exact ⟨.stopped, hn, id, nofun⟩
  | dead => exact ⟨.dead, hn, id, nofun⟩

/-- So does every step. -/
theorem drains_step (env : Env) (drainInProcess : Bool) {s : Worker} (h : WorkerInv s) {n : Nat} {pc : DrainPc}
    (hn : s.drains n = some pc) (l : Label) :
    ∃ pc', (step env drainInProcess s l).drains n = some pc' ∧ (DrainPc.failed pc → DrainPc.failed pc') ∧
      (pc.live = true → pc'.live = true ∨ DrainPc.failed pc' ∨
        ∃ now, l = .drain n now ∧ secondsUntilDue env now s.db = none) := by
  by_cases hdrain : ∃ now, l = .drain n now
  · obtain ⟨now, rfl⟩ := hdrain
    obtain ⟨pc', hpc', hfailed, hlive⟩ := advanceDrain_drains env hn now
    refine ⟨pc', ?_, hfailed, fun hl => (hlive hl).imp_right (Or.imp_right fun hdue => ⟨now, rfl, hdue⟩)⟩
    simp only [step, hn]
    exact hpc'
  · by_cases hfail : l = .fail n
    · subst hfail
      simp only [step, hn, raiseDrain]
      split
      · rename_i hlive
        refine ⟨.raised, by simp [Worker.moveDrain], fun _ => .inl rfl, fun _ => .inr (.inl (.inl rfl))⟩
      · exact ⟨pc, hn, id, fun hlive => .inl hlive⟩
    · refine ⟨pc, drains_step_of_ne h hn (fun now he => hdrain ⟨now, he⟩) hfail, id, fun hlive => .inl hlive⟩

/-- A drain that has raised never stops by the check. -/
theorem failed_run (env : Env) (drainInProcess : Bool) {s : Worker} (h : WorkerInv s) {n : Nat} {pc : DrainPc}
    (hn : s.drains n = some pc) (hfailed : DrainPc.failed pc) (ls : List Label) :
    ∃ pc', (Runs.run (step env drainInProcess) s ls).drains n = some pc' ∧ DrainPc.failed pc' := by
  induction ls generalizing s pc with
  | nil => exact ⟨pc, hn, hfailed⟩
  | cons l ls ih =>
    obtain ⟨pc', hpc', hstays, -⟩ := drains_step env drainInProcess h hn l
    exact ih (workerInv_step env drainInProcess h l) hpc' (hstays hfailed)

/-- A drain that stops has seen, since whenever it was going on, a queue without a job that is queued or
running. -/
theorem stops_after_check {s : Worker} (h : WorkerInv s) {drainInProcess : Bool} {n : Nat} {pc : DrainPc}
    (hn : s.drains n = some pc) (hlive : pc.live = true) {ls : List Label}
    (hstopped : (Runs.run (step env drainInProcess) s ls).drains n = some .stopped) :
    ∃ ls₁ now ls₂, ls = ls₁ ++ .drain n now :: ls₂ ∧
      secondsUntilDue env now (Runs.run (step env drainInProcess) s ls₁).db = none := by
  induction ls generalizing s pc with
  | nil =>
    obtain rfl := Option.some.inj (hn.symm.trans hstopped)
    exact nomatch hlive
  | cons l ls ih =>
    have hnext := workerInv_step env drainInProcess h l
    obtain ⟨pc', hpc', -, hto⟩ := drains_step env drainInProcess h hn l
    rcases hto hlive with hlive' | hfailed | ⟨now, rfl, hdue⟩
    · obtain ⟨ls₁, now, ls₂, rfl, hdue⟩ := ih hnext hpc' hlive' hstopped
      exact ⟨l :: ls₁, now, ls₂, rfl, hdue⟩
    · obtain ⟨pc'', hpc'', hno⟩ := failed_run env drainInProcess hnext hpc' hfailed ls
      obtain rfl := Option.some.inj (hpc''.symm.trans hstopped)
      exact absurd hno (by simp [DrainPc.failed])
    · exact ⟨[], now, ls, rfl, hdue⟩

/-- No kick is lost, but one that returns between a drain's raising and its handler's clearing `_thread`:
in a run, every kick that returns leaves a drain that has neither raised nor left its loop, and is being
woken if it waits, iff no kick returns while `_thread` is a drain that has raised. And a drain that is
going on does not stop by the emptiness check before it has seen a queue in which no job is queued or
running. -/
theorem no_kick_is_lost_iff (db : Db) (ls : List Label) :
    (Runs.EachStep (step env true) (fun s l => Returns s l → Attended (step env true s l)) (start db) ls ↔
      Runs.EachStep (step env true) (fun s l => Returns s l → ¬ Failing s) (start db) ls) ∧
    ∀ n pc, (Runs.run (step env true) (start db) ls).drains n = some pc → pc.live = true → ∀ ls',
      (Runs.run (step env true) (start db) (ls ++ ls')).drains n = some .stopped →
      ∃ ls₁ now ls₂, ls' = ls₁ ++ .drain n now :: ls₂ ∧
        ∀ j ∈ (Runs.run (step env true) (start db) (ls ++ ls₁)).db.jobs, j.status ≠ .queued ∧ j.status ≠ .running := by
  have hstep : ∀ s l, WorkerInv s → WorkerInv (step env true s l) := fun s l h => workerInv_step env true h l
  constructor
  · refine Runs.eachStep_congr hstep (fun s l h => ?_) (workerInv_start db)
    exact ⟨fun hs hl => (attended_iff h hl).1 (hs hl), fun hs hl => (attended_iff h hl).2 (hs hl)⟩
  · intro n pc hn hlive ls' hstopped
    have hinv : WorkerInv (Runs.run (step env true) (start db) ls) := Runs.run_inv hstep (workerInv_start db) ls
    rw [Runs.run_append] at hstopped
    obtain ⟨ls₁, now, ls₂, rfl, hdue⟩ := stops_after_check hinv hn hlive hstopped
    refine ⟨ls₁, now, ls₂, rfl, ?_⟩
    rw [Runs.run_append]
    exact secondsUntilDue_eq_none.1 hdue

/-- An upload's job. -/
def uploadedJob : Job :=
  ⟨2, 0, "ingest_document", [("document_id", 1)], "key", .queued, 0, 3, none, 0, 0, 0⟩

/-- The drain that the first kick has started raises; a job is enqueued and kicks, before the handler has
the lock; and the handler clears `_thread`. -/
def kickAfterFailure : List Label :=
  [.kick 0, .advance 0, .advance 0, .advance 0, .fail 0, .transact { jobs := [uploadedJob] },
    .kick 1, .advance 1, .advance 1, .advance 1]

/-- The second kick leaves no drain, and its job is queued with nobody to run it. -/
theorem kick_is_lost_on_a_failing_drain :
    ¬ Runs.EachStep (step (asciiEnv id) true)
      (fun s l => Returns s l → Attended (step (asciiEnv id) true s l)) (start {}) kickAfterFailure ∧
    (let s := Runs.run (step (asciiEnv id) true) (start {}) (kickAfterFailure ++ [.drain 0 0]);
      s.thread = none ∧ s.drains 0 = some .dead ∧ uploadedJob ∈ s.db.jobs) := by
  constructor
  · rintro ⟨-, -, -, -, -, -, -, -, -, hlast, -⟩
    obtain ⟨n, pc, hthread, hpc, hlive, -⟩ := hlast rfl
    obtain rfl : 0 = n := Option.some.inj hthread
    obtain rfl : DrainPc.raised = pc := Option.some.inj hpc
    exact nomatch hlive
  · decide

end KnowledgeDesk.Proofs
