import KnowledgeDesk.Service

/-!
# A coalition of accounts at the service

Some of the accounts pool what they know: passwords, tokens, and the contexts their requests act under.
The coalition takes the steps it has the knowledge for and learns from them; everybody else takes any
step. What a request of the coalition may do is decided by the context it resolved when it started,
whatever has happened to the role since.
-/

namespace KnowledgeDesk

/-- The service, the accounts of the coalition, the tokens it holds, and the contexts its requests act
under. -/
structure Coalition where
  service : Service
  accounts : List Uuid
  tokens : List String
  contexts : List AuthContext

namespace Coalition

/-- A step of the coalition, or of others. -/
inductive Label where
  | coalition (l : Service.Label)
  | other (l : Service.Label)

variable (env : Env)

section

-- the passwords the coalition knows, those it is going to choose included
variable (knows : String → Bool)

/-- The coalition has what the step takes: a context to act under, the password or the token. The
service's own housekeeping is nobody's step. -/
def may (s : Coalition) (l : Service.Label) : Bool :=
  (l.actor.all fun ctx => s.contexts.contains ctx) && match l with
    | .signup _ _ _ password _ _ | .login _ password _ => knows password
    | .member (.addMember _ _ password _ _ _) => knows password
    | .changePassword _ current new _ _ => knows current && knows new
    | .resolveSession raw _ | .logout raw => s.tokens.contains raw
    | .block stream | .finalize stream _ _ _ => (s.service.asks stream).any fun ask => s.contexts.contains ask.1
    | .purgeExpiredSessions _ | .background _ => false
    | _ => true

/-- What the coalition has after its step: the account it opened or the member it added, whose password
it chose, the session's token, the context of the request. -/
def gain (s : Coalition) : Service.Label → Coalition
  | .signup orgSlug orgName email password salt now =>
    match createOrgWithOwner env orgSlug orgName email password salt s.service.nextId (s.service.nextId + 1)
      now s.service.db with
    | .ok (ctx, _) => { s with accounts := ctx.userId :: s.accounts, contexts := ctx :: s.contexts }
    | .error _ => s
  | .login email password orgSlug =>
    match authenticate env email password orgSlug s.service.db with
    | .ok ctx => { s with contexts := ctx :: s.contexts }
    | .error _ => s
  | .createSession ctx raw now =>
    match createSession env ctx raw now s.service.db with
    | .ok _ => { s with tokens := raw :: s.tokens }
    | .error _ => s
  | .resolveSession raw now =>
    match resolveSession env raw now s.service.db with
    | some ctx => { s with contexts := ctx :: s.contexts }
    | none => s
  | .member (.addMember ctx email password role salt now) =>
    match addMember env ctx.orgId email password role salt s.service.nextId now s.service.db with
    | .ok (userId, _) =>
      if s.service.passes ctx (requireCanGrant ctx role) then { s with accounts := userId :: s.accounts } else s
    | .error _ => s
  | _ => s

/-- One step. -/
def step (s : Coalition) : Label → Coalition
  | .coalition l => if s.may knows l then { s.gain env l with service := Service.step env s.service l } else s
  | .other l => { s with service := Service.step env s.service l }

/-- An owner of the org acts on its members. -/
def OwnerActs (org : Uuid) : Service.Label → Prop
  | .member call => call.ctx.orgId = org ∧ call.ctx.role = .owner
  | _ => False

/-- The password or token of somebody else's step is nothing the coalition has. -/
def Secret (s : Coalition) : Service.Label → Prop
  | .signup _ _ _ password salt _ | .member (.addMember _ _ password _ salt _) =>
    ∀ p, knows p = true → env.verifyPassword p (env.hashPassword password salt) = false
  | .changePassword _ _ new salt _ =>
    ∀ p, knows p = true → env.verifyPassword p (env.hashPassword new salt) = false
  | .createSession _ raw _ => ∀ token ∈ s.tokens, env.sha256 token ≠ env.sha256 raw
  | _ => True

/-- The steps of the runs in question: nobody else acts on the members of `org` as its owner or leaks a
secret, and the clock, which stood at `start`, does not run backwards. -/
def Allowed (org : Uuid) (start : Time) (s : Coalition) : Label → Prop
  | .coalition (.resolveSession _ now) => start ≤ now
  | .coalition _ => True
  | .other l => ¬ OwnerActs org l ∧ s.Secret env knows l

end

/-- No token that the coalition holds or that is one of its accounts' resolves to an owner of `org`. -/
def Unescalated (org : Uuid) (start : Time) (s : Coalition) : Prop :=
  ∀ raw now ctx, start ≤ now → resolveSession env raw now s.service.db = some ctx →
    raw ∈ s.tokens ∨ ctx.userId ∈ s.accounts → ctx.orgId = org → ctx.role ≠ .owner

end Coalition

end KnowledgeDesk
