import KnowledgeDesk.Accounts

/-!
# Logins and password changes, transaction by transaction

`main.login` verifies the password in one transaction and inserts the session in the next, with the
token drawn in between, so another request's `change_password` may commit between the two. Each
transaction is one step here, also that of `change_password`, which is three statements. The machine
remembers what the tables do not: which token hash each change of a password kept, and how many changes
of the user's password a login's verification came after.
-/

namespace KnowledgeDesk

/-- The database, the logins that have verified a password and not inserted their session yet, the
token hashes that the committed changes of each user's password kept, oldest first, and how many of
these a session's login had behind it when it verified. -/
structure Logins where
  db : Db
  verified : Nat → Option (AuthContext × Nat)
  kept : Uuid → List String
  verifiedAfter : String → Nat

namespace Logins

/-- The transactions. -/
inductive Label where
  | authenticate (login : Nat) (email password : String) (orgSlug : Option String)
  | createSession (login : Nat) (raw : String) (now : Time)
  | resolveSession (raw : String) (now : Time)
  | deleteSession (raw : String)
  | changePassword (userId : Uuid) (current new salt keepTokenHash : String)

variable (env : Env)

/-- One transaction. `resolve_session` only reads. -/
def step (s : Logins) : Label → Logins
  | .authenticate login email password orgSlug =>
    match authenticate env email password orgSlug s.db with
    | .ok ctx =>
      { s with verified := Function.update s.verified login (some (ctx, (s.kept ctx.userId).length)) }
    | .error _ => s
  | .createSession login raw now =>
    match s.verified login with
    | some (ctx, changes) =>
      match createSession env ctx raw now s.db with
      | .ok (_, db) => { s with
          db
          verified := Function.update s.verified login none
          verifiedAfter := Function.update s.verifiedAfter (env.sha256 raw) changes }
      | .error _ => { s with verified := Function.update s.verified login none }
    | none => s
  | .resolveSession _ _ => s
  | .deleteSession raw =>
    match deleteSession env raw s.db with
    | .ok ((), db) => { s with db }
    | .error _ => s
  | .changePassword userId current new salt keepTokenHash =>
    match changePassword env userId current new salt keepTokenHash s.db with
    | .ok (_, db) => { s with
        db
        kept := Function.update s.kept userId (s.kept userId ++ [keepTokenHash]) }
    | .error _ => s

/-- A database whose logins and password changes are about to begin. -/
def start (db : Db) : Logins := ⟨db, fun _ => none, fun _ => [], fun _ => 0⟩

/-- Every session of the user that resolves, at whatever time, is for each change of their password the
one that the change kept, or the session of a login that verified against the password of that change
or a later one. -/
def LockedOut (user : Uuid) (s : Logins) : Prop :=
  ∀ raw now ctx, resolveSession env raw now s.db = some ctx → ctx.userId = user →
    ∀ n keep, (s.kept user)[n]? = some keep → env.sha256 raw = keep ∨ n < s.verifiedAfter (env.sha256 raw)

/-- The step inserts the session of a login whose password has been changed since it verified. -/
def Overtaken (user : Uuid) (s : Logins) : Label → Prop
  | .createSession login _ _ => ∃ v ∈ s.verified login, v.1.userId = user ∧ v.2 < (s.kept user).length
  | _ => False

instance decidableOvertaken (user : Uuid) (s : Logins) : ∀ l, Decidable (Overtaken user s l)
  | .createSession login _ _ =>
    inferInstanceAs (Decidable (∃ v ∈ s.verified login, v.1.userId = user ∧ v.2 < (s.kept user).length))
  | .authenticate .. | .resolveSession .. | .deleteSession .. | .changePassword .. => isFalse id

end Logins

end KnowledgeDesk
