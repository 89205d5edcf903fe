import KnowledgeDesk.Logins
import KnowledgeDesk.Proofs.SessionsProofs

/-!
# A password change locks out the old password

The sessions there are when a password changes are deleted, and a login that verifies later has verified
the new password. What is left are the logins between their two transactions.
-/

open Table

namespace KnowledgeDesk.Proofs

open Logins

variable {env : Env} {user : Uuid}

/-- Every session of the user is, for each change of the password, the one it kept or that of a login
that verified after it. -/
def SessionsAfter (user : Uuid) (s : Logins) : Prop :=
  ∀ sess ∈ s.db.sessions, sess.userId = user → ∀ n keep, (s.kept user)[n]? = some keep →
    sess.tokenHash = keep ∨ n < s.verifiedAfter sess.tokenHash

theorem SessionsAfter.lockedOut {s : Logins} (h : SessionsAfter user s) : LockedOut env user s := by
  intro raw now ctx hctx huser n keep hkeep
  obtain ⟨sess, hsess, hhash, hu, -⟩ := resolveSession_eq_some hctx
  rw [← hhash]
  exact h sess hsess (hu.trans huser) n keep hkeep

/-- A change of a password leaves the user the session it keeps. -/
theorem sessionsAfter_changed {s : Logins} (h : SessionsAfter user s) {userId : Uuid} {keep : String}
    {users : List User} : SessionsAfter user { s with
      db := { s.db with
        users
        sessions := deleteWhere (fun sess => sess.userId == userId && sess.tokenHash != keep) s.db.sessions }
      kept := Function.update s.kept userId (s.kept userId ++ [keep]) } := by
  intro sess hsess huser n kept hkept
  obtain ⟨hold, hleft⟩ := mem_deleteWhere.1 hsess
  by_cases hu : user = userId
  · subst hu
    have hleft : sess.tokenHash = keep := by simpa [huser] using hleft
    simp only [Function.update_self] at hkept
    by_cases hn : n < (s.kept user).length
    · rw [List.getElem?_append_left hn] at hkept
      exact h sess hold huser n kept hkept
    · -- the change itself
      have hlast : kept ∈ [keep] := by
        rw [List.getElem?_append_right (not_lt.1 hn)] at hkept
        exact List.mem_of_getElem? hkept
      rw [List.mem_singleton.1 hlast]
      exact .inl hleft
  · simp only [Function.update_of_ne hu] at hkept
    exact h sess hold huser n kept hkept

/-- Every step but an overtaken login's keeps it so. -/
theorem sessionsAfter_step {s : Logins} (h : SessionsAfter user s) {l : Label} (hl : ¬ Overtaken user s l) :
    SessionsAfter user (step env s l) := by
  cases l with
  | authenticate login email password orgSlug =>
    simp only [step]
    split <;> exact h
  | resolveSession raw now => exact h
  | deleteSession raw =>
    intro sess hsess
    exact h sess (mem_deleteWhere.1 hsess).1
  | changePassword userId current new salt keep =>
    simp only [step]
    split
    · rename_i hok
      obtain ⟨-, rfl⟩ := changePassword_ok hok
      exact sessionsAfter_changed h
    · exact h
  | createSession login raw now =>
    simp only [step]
    split
    · rename_i ctx changes hverified
      split
      · rename_i hok
        obtain ⟨hnew, -, rfl⟩ := createSession_ok hok
        intro sess hsess huser n keep hkeep
        rcases List.mem_append.1 hsess with hold | hnewest
        · have hother : sess.tokenHash ≠ env.sha256 raw := hnew sess hold
          simp only [Function.update_of_ne hother]
          exact h sess hold huser n keep hkeep
        · obtain rfl := List.mem_singleton.1 hnewest
          have hfresh : (s.kept user).length ≤ changes := by
            by_contra hlt
            exact hl ⟨(ctx, changes), hverified, huser, not_le.1 hlt⟩
          have hn : n < (s.kept user).length := (List.getElem?_eq_some_iff.1 hkeep).1
          refine .inr ?_
          simp only [Function.update_self]
          omega
      · exact h
    · exact h

/-- A password change locks out the old password, in every run of these transactions in which no login
of the user inserts its session after a change of the password that its verification came before. -/
theorem change_locks_out_unless_overtaken (db : Db) (user : Uuid) {ls : List Label}
    (h : Runs.EachStep (step env) (fun s l => ¬ Overtaken user s l) (start db) ls) :
    Runs.Throughout (step env) (LockedOut env user) (start db) ls := by
  have hstart : SessionsAfter user (start db) := fun _ _ _ _ _ hkept => by simp [start] at hkept
  have hrun : Runs.Throughout (step env) (SessionsAfter user) (start db) ls :=
    Runs.throughout_of_eachStep (fun s l hs hl => sessionsAfter_step hs hl) hstart h
  exact hrun.mono fun s hs => hs.lockedOut

/-- Ann's account, and her session at home. -/
def annAtHome : Db where
  orgs := [⟨0, "acme", "Acme"⟩]
  users := [⟨1, "ann", "saltold"⟩]
  memberships := [⟨1, 0, .owner, 0⟩]
  sessions := [⟨"home", 1, 0, seconds 60⟩]

/-- Someone logs in with the password that Ann then changes, and Ann logs in with the new one. -/
def thiefLogsInFirst : List Label :=
  [.authenticate 0 "ann" "old" none, .createSession 0 "thief" 0,
    .changePassword 1 "old" "new" "salt" "home", .authenticate 1 "ann" "new" none, .createSession 1 "phone" 0]

theorem change_locks_out_the_thief :
    Runs.Throughout (step (asciiEnv id)) (LockedOut (asciiEnv id) 1) (start annAtHome) thiefLogsInFirst :=
  change_locks_out_unless_overtaken annAtHome 1 (by decide +kernel)

/-- The password changes between the two transactions of the thief's login. -/
def thiefIsOvertaken : List Label :=
  [.authenticate 0 "ann" "old" none, .changePassword 1 "old" "new" "salt" "home", .createSession 0 "thief" 0]

theorem overtaken_login_survives_the_change :
    ¬ Runs.Throughout (step (asciiEnv id)) (LockedOut (asciiEnv id) 1) (start annAtHome) thiefIsOvertaken := by
  intro h
  have hresolves : resolveSession (asciiEnv id) "thief" 0
      (Runs.run (step (asciiEnv id)) (start annAtHome) thiefIsOvertaken).db = some ⟨1, 0, .owner, "ann"⟩ := by
    decide +kernel
  have hkept : ((Runs.run (step (asciiEnv id)) (start annAtHome) thiefIsOvertaken).kept 1)[0]? = some "home" := by
    decide +kernel
  rcases h.last "thief" 0 _ hresolves rfl 0 "home" hkept with hhash | hlater
  · exact absurd hhash (by decide)
  · exact absurd hlater (by decide +kernel)

end KnowledgeDesk.Proofs
