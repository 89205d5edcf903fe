import KnowledgeDesk.Proofs.OrgFrameProofs
import KnowledgeDesk.Proofs.ServiceProofs
import KnowledgeDesk.Process

/-!
# A handler does what the service may do

Each step of a handler, whatever the request, is a transaction of the service, under a context that has been
issued, or none; and a stream it ends with is under such a context.
-/

namespace KnowledgeDesk.Proofs

open Runs

variable {env : Env} {deployment : Deployment} {conn : Nat}

/-! ## What a handler knows of the service -/

/-- The store is that of the service. -/
def ShowsStore (t : Service) (x : Store) : Prop := t.db = x.db ∧ t.nextId = x.nextId

/-- What a handler has found: contexts, groups a context may use, and the jobs it has to enqueue. -/
structure Knows where
  issued : List AuthContext
  checked : List (AuthContext × Uuid)
  pending : List PendingJob

/-- It is so in the service. -/
structure Knows.Holds (conn : Nat) (loc : Knows) (t : Service) : Prop where
  issued : ∀ ctx ∈ loc.issued, ctx ∈ t.issued
  checked : ∀ p ∈ loc.checked, p ∈ t.checked
  pending : t.pipeline.requests conn = loc.pending

/-- No stream and no worker is touched, no upload but one, and what has been found remains found. -/
structure Unhindered (conn : Nat) (t t' : Service) : Prop where
  asks : t'.asks = t.asks
  workers : t'.pipeline.workers = t.pipeline.workers
  requests : ∀ j, j ≠ conn → t'.pipeline.requests j = t.pipeline.requests j
  issued : ∀ ctx ∈ t.issued, ctx ∈ t'.issued
  checked : ∀ p ∈ t.checked, p ∈ t'.checked

theorem Unhindered.refl (t : Service) : Unhindered conn t t := ⟨rfl, rfl, fun _ _ => rfl, fun _ h => h, fun _ h => h⟩

/-- The one step that is about no org in particular. -/
def spansOrgs : Service.Label → Bool
  | .purgeExpiredSessions _ => true
  | _ => false

/-- One step of the service at most, which spans the orgs only if it may. -/
structure AtMostOne (may : Prop) (ls : List Service.Label) : Prop where
  length : ls.length ≤ 1
  spans : ∀ l ∈ ls, spansOrgs l = true → may

theorem AtMostOne.nil {may : Prop} : AtMostOne may [] := ⟨Nat.zero_le 1, fun _ h => absurd h List.not_mem_nil⟩

theorem AtMostOne.single {may : Prop} {l : Service.Label} (h : spansOrgs l = true → may) : AtMostOne may [l] := by
  refine ⟨le_refl 1, fun l' hl' => ?_⟩
  rw [List.mem_singleton.1 hl']
  exact h

theorem AtMostOne.imp {may may' : Prop} {ls : List Service.Label} (h : AtMostOne may ls) (himp : may → may') :
    AtMostOne may' ls := ⟨h.length, fun l hl hs => himp (h.spans l hl hs)⟩

/-- A step of the service that a handler may take, or none. -/
structure Continues (env : Env) (conn : Nat) (t t' : Service) : Prop where
  run : ∃ ls, AtMostOne False ls ∧ t' = run (Service.step env) t ls
  untouched : Unhindered conn t t'

theorem Continues.refl (t : Service) : Continues env conn t t := ⟨⟨[], .nil, rfl⟩, .refl t⟩

/-- A handler that refines the service, and knows what it needs. -/
abbrev Refining (env : Env) (conn : Nat) {α : Type} (h : Handler α) (loc : Knows) (Q : α → Knows → Prop) : Prop :=
  h.Refines ShowsStore (Knows.Holds conn) (Continues env conn) loc Q

/-- A step that is none of the service: the store keeps its database and its counter. -/
theorem refining_aside {α : Type} {f : Input → Store → Except HttpError α × Store} {loc : Knows}
    {Q : α → Knows → Prop} (hstore : ∀ input x, (f input x).2.db = x.db ∧ (f input x).2.nextId = x.nextId)
    (hQ : ∀ input x a, (f input x).1 = .ok a → Q a loc) : Refining env conn (Resume.act f) loc Q := by
  refine Resume.refines_act fun input x t hs hl => ⟨t, loc, .refl t, ?_, hl, hQ input x⟩
  exact ⟨hs.1.trans (hstore input x).1.symm, hs.2.trans (hstore input x).2.symm⟩

/-- A method that is one step of the service where it returns, and leaves the database as it was where it
raises. -/
theorem refining_step {α : Type} {drawn : Nat} {method : Input → Uuid → Scope α} {loc : Knows}
    {Q : α → Knows → Prop} (label : Input → Service.Label) (hlabel : ∀ input, spansOrgs (label input) = false)
    (hok : ∀ input t a db, loc.Holds conn t → method input t.nextId t.db = (.ok a, db) →
      let t' := Service.step env t (label input)
      t'.db = db ∧ t'.nextId = t.nextId + drawn ∧ Unhindered conn t t' ∧ ∃ loc' : Knows, loc'.Holds conn t' ∧ Q a loc')
    (herror : ∀ input fresh db e db', method input fresh db = (.error e, db') → db' = db) :
    Refining env conn (Api.call drawn method) loc Q := by
  refine Resume.refines_act fun input x t hs hl => ?_
  obtain ⟨hdb, hnext⟩ := hs
  rcases hm : method input x.nextId x.db with ⟨e | a, db⟩
  · refine ⟨t, loc, .refl t, ⟨hdb.trans ?_, hnext⟩, hl, by simp⟩
    exact (herror _ _ _ _ _ hm).symm
  · obtain ⟨hdb', hnext', huntouched, loc', hholds, hQ⟩ := hok input t a db hl (by rw [hdb, hnext, hm])
    refine ⟨_, loc', ⟨⟨[label input], .single fun hs => ?_, rfl⟩, huntouched⟩, ⟨hdb', ?_⟩, hholds,
      by simpa using hQ⟩
    · exact Bool.false_ne_true ((hlabel input).symm.trans hs)
    · exact hnext'.trans (by rw [hnext])

/-! ## Methods of one transaction -/

theorem gated_ok {α : Type} {g : Except Err Unit} {tx : Tx Db Err α} {db db' : Db} {a : α}
    (h : (gate g >>= fun _ => Proc.transact tx) db = (.ok a, db')) : g = .ok () ∧ tx db = .ok (a, db') := by
  cases g with
  | error e => cases h
  | ok u =>
    have h : Proc.transact tx db = (.ok a, db') := h
    rcases htx : tx db with e | ⟨b, db₁⟩
    · cases (Proc.transact_of_error htx).symm.trans h
    · obtain ⟨hb, rfl⟩ := Prod.mk.inj ((Proc.transact_of_ok htx).symm.trans h)
      obtain rfl := Except.ok.inj hb
      exact ⟨rfl, rfl⟩

theorem gated_error {α : Type} {g : Except Err Unit} {tx : Tx Db Err α} {db db' : Db} {e : Err}
    (h : (gate g >>= fun _ => Proc.transact tx) db = (.error e, db')) : db' = db := by
  cases g with
  | error e => exact (Prod.mk.inj h).2.symm
  | ok u =>
    have h : Proc.transact tx db = (.error e, db') := h
    rcases htx : tx db with e | ⟨b, db₁⟩
    · exact (Prod.mk.inj ((Proc.transact_of_error htx).symm.trans h)).2.symm
    · cases (Proc.transact_of_ok htx).symm.trans h

theorem commit_ok {t : Service} {tx : Tx Db Err Unit} {drawn : Nat} {db : Db} (h : tx t.db = .ok ((), db)) :
    t.commit tx drawn = t.store db drawn := by
  unfold Service.commit
  rw [h]

theorem commit_map_ok {α : Type} {t : Service} {tx : Tx Db Err α} {drawn : Nat} {a : α} {db : Db}
    (h : tx t.db = .ok (a, db)) :
    t.commit (fun db => (tx db).map fun r => ((), r.2)) drawn = t.store db drawn :=
  commit_ok (map_snd_ok.2 ⟨a, h⟩)

theorem untouched_store (t : Service) (db : Db) (drawn : Nat) : Unhindered conn t (t.store db drawn) :=
  ⟨rfl, rfl, fun _ _ => rfl, fun _ h => h, fun _ h => h⟩

theorem Knows.Holds.store {loc : Knows} {t : Service} (h : loc.Holds conn t) (db : Db) (drawn : Nat) :
    loc.Holds conn (t.store db drawn) := ⟨h.issued, h.checked, h.pending⟩

def Knows.issue (loc : Knows) (ctx : AuthContext) : Knows := { loc with issued := ctx :: loc.issued }

theorem untouched_issue (t : Service) (db : Db) (drawn : Nat) (ctx : AuthContext) :
    Unhindered conn t ((t.store db drawn).issue ctx) :=
  ⟨rfl, rfl, fun _ _ => rfl, fun _ h => List.mem_cons_of_mem _ h, fun _ h => h⟩

theorem Knows.Holds.issue {loc : Knows} {t : Service} (h : loc.Holds conn t) (ctx : AuthContext) :
    (loc.issue ctx).Holds conn (t.issue ctx) := by
  refine ⟨fun c hc => ?_, h.checked, h.pending⟩
  rcases List.mem_cons.1 hc with rfl | hc
  · exact List.mem_cons_self
  · exact List.mem_cons_of_mem _ (h.issued c hc)

/-- A gate and a transaction that the service commits under the label. -/
theorem refining_gated {α : Type} {drawn : Nat} {g : Except Err Unit} {tx : Input → Uuid → Tx Db Err α}
    {loc : Knows} (label : Input → Service.Label) (hlabel : ∀ input, spansOrgs (label input) = false)
    (hstep : ∀ input t a db, loc.Holds conn t → g = .ok () → tx input t.nextId t.db = .ok (a, db) →
      Service.step env t (label input) = t.store db drawn) :
    Refining env conn (Api.call drawn fun input fresh => gate g >>= fun _ => Proc.transact (tx input fresh)) loc
      fun _ loc' => loc' = loc := by
  refine refining_step label hlabel (fun input t a db hl h => ?_) fun _ _ _ _ _ h => gated_error h
  obtain ⟨hg, htx⟩ := gated_ok h
  rw [hstep input t a db hl hg htx]
  exact ⟨rfl, rfl, untouched_store t db drawn, loc, hl.store db drawn, rfl⟩

/-- A transaction that the service commits under the label. -/
theorem refining_transact {α : Type} {drawn : Nat} {tx : Input → Uuid → Tx Db Err α} {loc : Knows}
    (label : Input → Service.Label) (hlabel : ∀ input, spansOrgs (label input) = false)
    (hstep : ∀ input t a db, loc.Holds conn t → tx input t.nextId t.db = .ok (a, db) →
      Service.step env t (label input) = t.store db drawn) :
    Refining env conn (Api.call drawn fun input fresh => Proc.transact (tx input fresh)) loc
      fun _ loc' => loc' = loc :=
  refining_gated (g := .ok ()) label hlabel fun input t a db hl _ h => hstep input t a db hl h

/-- A method that reads. -/
theorem refining_readOnly {α : Type} {method : Input → Uuid → Scope α} {loc : Knows}
    (h : ∀ input fresh, Proc.ReadOnly (method input fresh)) :
    Refining env conn (Api.call 0 method) loc fun _ loc' => loc' = loc := by
  refine refining_aside (fun input x => ?_) fun _ _ _ _ => rfl
  have hsame := h input x.nextId x.db
  rcases hm : method input x.nextId x.db with ⟨e | a, db⟩ <;> rw [hm] at hsame <;> exact ⟨hsame, rfl⟩

/-- What comes after a step that found nothing new. -/
theorem refining_then {α β : Type} {r : Handler α} {k : α → Handler β} {loc : Knows} {Q : β → Knows → Prop}
    (hr : Refining env conn r loc fun _ loc' => loc' = loc) (hk : ∀ a, Refining env conn (k a) loc Q) :
    Refining env conn (r >>= k) loc Q :=
  hr.bind fun a _ he => he ▸ hk a

theorem refining_require {g : Except Err Unit} {loc : Knows} :
    Refining env conn (Api.require g) loc fun _ loc' => loc' = loc ∧ g = .ok () := by
  refine Resume.refines_lift fun _ h => ⟨rfl, ?_⟩
  cases g with
  | ok u => rfl
  | error e => cases h

/-! ## The routes -/

/-- A request acts under the context, and has no job to enqueue. -/
def Acting (ctx : AuthContext) (loc : Knows) : Prop := ctx ∈ loc.issued ∧ loc.pending = []

variable {loc : Knows} {ctx : AuthContext}

theorem Acting.passes (h : Acting ctx loc) {t : Service} (hl : loc.Holds conn t) {g : Except Err Unit}
    (hg : g = .ok ()) : t.passes ctx g = true := passes_iff.2 ⟨hl.issued ctx h.1, hg⟩

theorem refining_audit (h : Acting ctx loc) (action : String) (detail : List (String × DetailValue)) :
    Refining env conn (Api.audit env ctx action detail) loc fun _ loc' => loc' = loc := by
  refine refining_step (fun input => .audit ctx action detail input.now) (fun _ => rfl) (fun input t a db hl ha => ?_)
    fun input fresh db e db' he => ?_
  · rw [Service.step, if_pos (h.passes hl rfl)]
    rcases htx : auditTx env ctx.orgId (some ctx.userId) action detail input.now t.db with e | ⟨⟨⟩, db₁⟩
    · obtain rfl : t.db = db := by
        simp only [auditLog, Proc.tryExcept, Proc.transact_of_error htx] at ha
        exact (Prod.mk.inj ha).2
      rw [Service.commit, htx]
      exact ⟨rfl, rfl, .refl t, loc, hl, rfl⟩
    · obtain rfl : db₁ = db := by
        simp only [auditLog, Proc.tryExcept, Proc.transact_of_ok htx] at ha
        exact (Prod.mk.inj ha).2
      rw [commit_ok htx]
      exact ⟨rfl, rfl, untouched_store t _ 0, loc, hl.store _ 0, rfl⟩
  · rcases htx : auditTx env ctx.orgId (some ctx.userId) action detail input.now db with e' | ⟨⟨⟩, db₁⟩
    · simp only [auditLog, Proc.tryExcept, Proc.transact_of_error htx] at he
      cases he
    · simp only [auditLog, Proc.tryExcept, Proc.transact_of_ok htx] at he
      cases he

/-- What a response promises: a stream runs under a context that has been issued, and on a question within
its bounds. -/
def Answered (response : HttpResponse) (loc : Knows) : Prop :=
  loc.pending = [] ∧ ∀ ctx question k, response.body = .stream ctx question k →
    ctx ∈ loc.issued ∧ Schemas.sized 1 500 question = true

theorem Acting.answered (h : Acting ctx loc) {response : HttpResponse}
    (hbody : ∀ ctx' question k, response.body ≠ .stream ctx' question k) : Answered response loc :=
  ⟨h.2, fun ctx' question k hb => absurd hb (hbody ctx' question k)⟩

/-- A handler that ends with a response that is no stream, and an entry in the audit log before it. -/
theorem refining_audited (h : Acting ctx loc) (action : String) (detail : List (String × DetailValue))
    {response : HttpResponse} (hbody : ∀ ctx' question k, response.body ≠ .stream ctx' question k) :
    Refining env conn (do
      Api.audit env ctx action detail
      return response) loc Answered :=
  refining_then (refining_audit h action detail) fun _ => h.answered hbody

theorem refining_authRateLimit (req : HttpRequest) :
    Refining env conn (Api.authRateLimit deployment req) loc fun _ loc' => loc' = loc :=
  refining_aside (fun _ _ => ⟨rfl, rfl⟩) fun _ _ _ _ => rfl

/-- What comes after the bounds have been checked. -/
theorem refining_bounded {endpoint : Endpoint} {handler : Handler HttpResponse} {Q : HttpResponse → Knows → Prop}
    (h : Schemas.valid endpoint = true → Refining env conn handler loc Q) :
    Refining env conn (do
      Api.validated endpoint
      handler) loc Q := by
  unfold Api.validated
  split
  · exact h ‹_›
  · trivial

theorem refining_createSession (h : Acting ctx loc) :
    Refining env conn (Api.createSession env ctx) loc fun _ loc' => loc' = loc :=
  refining_transact (fun input => .createSession ctx input.secret input.now) (fun _ => rfl)
    fun input t a db hl htx => by
      rw [Service.step, if_pos (h.passes hl rfl), commit_map_ok htx]

/-- A context is issued by the way. -/
theorem refining_issue {drawn : Nat} {method : Input → Uuid → Scope AuthContext} (hloc : loc.pending = [])
    (label : Input → Service.Label) (hlabel : ∀ input, spansOrgs (label input) = false)
    (hok : ∀ input t ctx db, method input t.nextId t.db = (.ok ctx, db) →
      Service.step env t (label input) = (t.store db drawn).issue ctx)
    (herror : ∀ input fresh db e db', method input fresh db = (.error e, db') → db' = db) :
    Refining env conn (Api.call drawn method) loc Acting := by
  refine refining_step label hlabel (fun input t ctx db hl h => ?_) herror
  rw [hok input t ctx db h]
  exact ⟨rfl, rfl, untouched_issue t db drawn ctx, loc.issue ctx, (hl.store db drawn).issue ctx,
    List.mem_cons_self, hloc⟩

theorem refining_signup (req : HttpRequest) (orgSlug orgName email password : String) (hloc : loc.pending = []) :
    Refining env conn (Api.signup env deployment req orgSlug orgName email password) loc Answered := by
  refine refining_then (refining_authRateLimit req) fun _ => refining_bounded fun _ => ?_
  refine (refining_issue hloc (fun input => .signup orgSlug orgName email password input.secret input.now)
    (fun _ => rfl) (fun input t ctx db h => ?_) fun _ _ _ _ _ h => gated_error (g := .ok ()) h).bind
    fun ctx loc' h => ?_
  · rw [Service.step, (gated_ok (g := .ok ()) h).2]
  · exact refining_then (refining_createSession h) fun token => refining_audited h _ _ (by simp)

theorem refining_login (req : HttpRequest) (email password : String) (orgSlug : Option String)
    (hloc : loc.pending = []) :
    Refining env conn (Api.login env deployment req email password orgSlug) loc Answered := by
  refine refining_then (refining_authRateLimit req) fun _ => refining_bounded fun _ => ?_
  refine (refining_issue hloc (fun _ => .login email password orgSlug) (fun _ => rfl) (fun input t ctx db h => ?_)
    fun _ _ _ _ _ h => (Prod.mk.inj h).2.symm).bind fun ctx loc' h => ?_
  · obtain ⟨hctx, rfl⟩ := Prod.mk.inj h
    rw [Service.step, hctx]
    rfl
  · exact refining_then (refining_createSession h) fun token => refining_audited h _ _ (by simp)

theorem refining_logout (token : String) (hloc : loc.pending = []) :
    Refining env conn (Api.logout env token) loc Answered := by
  refine refining_then (refining_transact (fun _ => .logout token) (fun _ => rfl) fun input t a db hl h => ?_)
    fun _ => ⟨hloc, (by simp)⟩
  rw [Service.step, commit_ok h]

theorem refining_currentCtx (token : String) (hloc : loc.pending = []) :
    Refining env conn (Api.currentCtx env token) loc Acting := by
  refine Resume.Refines.bind (Q := fun r loc' => ∀ ctx, r = some ctx → Acting ctx loc')
    (refining_step (fun input => .resolveSession token input.now) (fun _ => rfl) (fun input t r db hl h => ?_)
      (by simp)) fun r loc' h => ?_
  · obtain ⟨hr, rfl⟩ := Prod.mk.inj h
    obtain rfl := Except.ok.inj hr
    cases hr : resolveSession env token input.now t.db with
    | none =>
      rw [Service.step, hr]
      exact ⟨rfl, rfl, .refl t, loc, hl, (by simp)⟩
    | some ctx =>
      rw [Service.step, hr]
      refine ⟨rfl, rfl, untouched_issue t t.db 0 ctx, loc.issue ctx, hl.issue ctx, ?_⟩
      rintro c ⟨⟩
      exact ⟨List.mem_cons_self, hloc⟩
  · cases r with
    | none => trivial
    | some ctx => exact h ctx rfl

theorem refining_changePassword (req : HttpRequest) (h : Acting ctx loc) (token current new : String) :
    Refining env conn (Api.changePassword env deployment req ctx token current new) loc Answered := by
  refine refining_then (refining_authRateLimit req) fun _ => refining_bounded fun _ => ?_
  split
  · trivial
  · refine refining_then (refining_transact (fun input => .changePassword ctx current new input.secret
      (env.sha256 token)) (fun _ => rfl) fun input t a db hl htx => ?_) fun revoked =>
        refining_audited h _ _ (by simp)
    rw [Service.step, if_pos (h.passes hl rfl), commit_map_ok htx]

theorem step_member {t : Service} {call : MemberCall} {db : Db} (h : t.passes call.ctx call.gate = true)
    (htx : call.tx env t.nextId t.db = .ok ((), db)) : Service.step env t (.member call) = t.store db 1 := by
  rw [Service.step, if_pos h, commit_ok htx]

theorem refining_addMember (h : Acting ctx loc) (email password : String) (role : Role) :
    Refining env conn (Api.addMember env ctx email password role) loc Answered := by
  refine refining_then (refining_gated (fun input => .member (.addMember ctx email password role input.secret
    input.now)) (fun _ => rfl) fun input t a db hl hg htx => ?_) fun userId => refining_audited h _ _ (by simp)
  exact step_member (h.passes hl hg) (map_snd_ok.2 ⟨a, htx⟩)

theorem refining_setMemberRole (h : Acting ctx loc) (userId : Uuid) (role : Role) :
    Refining env conn (Api.setMemberRole env ctx userId role) loc Answered :=
  refining_then (refining_gated (fun _ => .member (.setMemberRole ctx userId role)) (fun _ => rfl)
    fun _ _ _ _ hl hg htx => step_member (h.passes hl hg) htx) fun _ => refining_audited h _ _ (by simp)

theorem refining_removeMember (h : Acting ctx loc) (userId : Uuid) :
    Refining env conn (Api.removeMember env ctx userId) loc Answered :=
  refining_then (refining_gated (fun _ => .member (.removeMember ctx userId)) (fun _ => rfl)
    fun _ _ _ _ hl hg htx => step_member (h.passes hl hg) htx) fun _ => refining_audited h _ _ (by simp)

theorem refining_createGroup (h : Acting ctx loc) (name : String) :
    Refining env conn (Api.createGroup ctx name) loc Answered := by
  refine refining_then (refining_gated (fun input => .createGroup ctx name input.now) (fun _ => rfl)
    fun input t a db hl hg htx => ?_) fun _ => h.answered (by simp)
  rw [Service.step, if_pos (h.passes hl hg), commit_map_ok htx]

theorem refining_deleteGroup (h : Acting ctx loc) (groupId : Uuid) :
    Refining env conn (Api.read (deleteGroup ctx groupId)) loc fun _ loc' => loc' = loc := by
  refine refining_gated (fun _ => .deleteGroup ctx groupId) (fun _ => rfl) fun input t a db hl hg htx => ?_
  rw [Service.step, if_pos (h.passes hl hg), commit_ok htx]

/-- The group that `get_group` has returned. -/
theorem refining_getGroup (h : Acting ctx loc) (groupId : Uuid) :
    Refining env conn (Api.read (getGroup ctx groupId)) loc fun _ loc' =>
      Acting ctx loc' ∧ (ctx, groupId) ∈ loc'.checked := by
  refine refining_step (fun _ => .getGroup ctx groupId) (fun _ => rfl) (fun input t g db hl hget => ?_)
    fun input fresh db e db' he => ?_
  · rw [getGroup, Proc.bind_apply, Proc.read_apply] at hget
    cases hg : group? ctx groupId t.db with
    | none =>
      rw [hg] at hget
      cases hget
    | some g' =>
      rw [hg] at hget
      obtain ⟨-, rfl⟩ := Prod.mk.inj hget
      rw [Service.step, if_pos ⟨h.passes hl rfl, by rw [hg]; rfl⟩]
      refine ⟨rfl, rfl, ⟨rfl, rfl, fun _ _ => rfl, fun _ h => h, fun _ h => List.mem_cons_of_mem _ h⟩,
        { loc with checked := (ctx, groupId) :: loc.checked }, ⟨hl.issued, fun p hp => ?_, hl.pending⟩, h,
        List.mem_cons_self⟩
      rcases List.mem_cons.1 hp with rfl | hp
      · exact List.mem_cons_self
      · exact List.mem_cons_of_mem _ (hl.checked p hp)
  · have hsame : (getGroup ctx groupId db).2 = db := readOnly_getGroup groupId db
    rwa [he] at hsame

theorem refining_addGroupMember (h : Acting ctx loc) (groupId : Uuid) (email : String) :
    Refining env conn (Api.addGroupMember env ctx groupId email) loc Answered := by
  refine refining_require.bind fun _ loc' hg => ?_
  obtain ⟨rfl, hg⟩ := hg
  refine refining_then (refining_readOnly fun _ _ => Proc.ReadOnly.read _) fun user => ?_
  cases user with
  | none => trivial
  | some userId =>
    refine refining_require.bind fun _ loc' hg' => ?_
    obtain ⟨rfl, -⟩ := hg'
    refine (refining_getGroup h groupId).bind fun _ loc' hc => ?_
    refine refining_then (refining_transact (fun _ => .addGroupMember ctx groupId userId) (fun _ => rfl)
      fun input t a db hl htx => ?_) fun _ => hc.1.answered (by simp)
    rw [Service.step, if_pos ⟨hc.1.passes hl hg, hl.checked _ hc.2⟩, commit_ok htx]

theorem refining_removeGroupMember (h : Acting ctx loc) (groupId userId : Uuid) :
    Refining env conn (Api.removeGroupMember ctx groupId userId) loc Answered := by
  refine refining_require.bind fun _ loc' hg => ?_
  obtain ⟨rfl, hg⟩ := hg
  refine (refining_getGroup h groupId).bind fun _ loc' hc => ?_
  refine refining_then (refining_transact (fun _ => .removeGroupMember ctx groupId userId) (fun _ => rfl)
    fun input t a db hl htx => ?_) fun _ => hc.1.answered (by simp)
  rw [Service.step, if_pos ⟨hc.1.passes hl hg, hl.checked _ hc.2⟩, commit_ok htx]

/-! ### Documents -/

theorem refining_enqueueAll (jobs : List PendingJob) {loc : Knows} (hctx : ctx ∈ loc.issued)
    (hpending : loc.pending = jobs) :
    Refining env conn (Api.enqueueAll env jobs) loc fun _ loc' => Acting ctx loc' := by
  induction jobs generalizing loc with
  | nil => exact ⟨hctx, hpending⟩
  | cons job jobs ih =>
    refine Resume.Refines.bind (Q := fun _ loc' => ctx ∈ loc'.issued ∧ loc'.pending = jobs)
      (refining_step (fun input => .background (.enqueue conn input.now)) (fun _ => rfl) (fun input t a db hl h => ?_)
        fun _ _ _ _ _ h => gated_error (g := .ok ()) h) fun _ loc' h => ih h.1 h.2
    obtain ⟨-, htx⟩ := gated_ok (g := .ok ()) h
    have hjobs : t.pipeline.requests conn = job :: jobs := hl.pending.trans hpending
    have hstep : Service.step env t (.background (.enqueue conn input.now)) = { t with pipeline := { t.pipeline with
        db, nextId := t.nextId + 1
        requests := Function.update t.pipeline.requests conn jobs } } := by
      show Service.ingest env t (.enqueue conn input.now) = _
      rw [Service.ingest, Pipeline.step, hjobs]
      simp only [Service.nextId, Service.db] at htx
      simp only [htx]
      rfl
    rw [hstep]
    refine ⟨rfl, rfl, ⟨rfl, rfl, fun j hj => Function.update_of_ne hj _ _, fun _ h => h, fun _ h => h⟩,
      { loc with pending := jobs }, ⟨hl.issued, hl.checked, Function.update_self ..⟩, hctx, rfl⟩

theorem refining_uploadFolder (h : Acting ctx loc) (documents : List Item) :
    Refining env conn (Api.uploadFolder env ctx documents) loc Answered := by
  refine refining_require.bind fun _ loc' hg => ?_
  obtain ⟨rfl, hg⟩ := hg
  refine Resume.Refines.bind (Q := fun r loc' => ctx ∈ loc'.issued ∧ loc'.pending = r.2)
    (refining_step (fun input => .syncSource conn ctx Api.LOCAL_FOLDER_SOURCE documents input.now) (fun _ => rfl)
      (fun input t r db hl htx => ?_) fun _ _ _ _ _ h => gated_error (g := .ok ()) h) fun r loc' hr => ?_
  · obtain ⟨-, htx⟩ := gated_ok (g := .ok ()) htx
    have hfree : t.pipeline.requests conn = [] := hl.pending.trans h.2
    have hstep : Service.step env t (.syncSource conn ctx Api.LOCAL_FOLDER_SOURCE documents input.now) =
        { t with pipeline := { t.pipeline with
          db, nextId := t.nextId + documents.length
          requests := Function.update t.pipeline.requests conn r.2 } } := by
      rw [Service.step, if_pos (h.passes hl hg), Service.ingest, Pipeline.step, if_pos hfree]
      simp only [Service.nextId, Service.db] at htx
      simp only [htx]
      rfl
    rw [hstep]
    exact ⟨rfl, rfl, ⟨rfl, rfl, fun j hj => Function.update_of_ne hj _ _, fun _ h => h, fun _ h => h⟩,
      ⟨loc'.issued, loc'.checked, r.2⟩, ⟨hl.issued, hl.checked, Function.update_self ..⟩, h.1, rfl⟩
  · refine (refining_enqueueAll r.2 hr.1 hr.2).bind fun _ loc₁ h₁ => ?_
    refine refining_then (refining_audit h₁ _ _) fun _ => ?_
    split
    · exact refining_then (refining_aside (fun _ _ => ⟨rfl, rfl⟩) fun _ _ _ _ => rfl) fun _ => h₁.answered (by simp)
    · exact h₁.answered (by simp)

/-- An edit of the documents. -/
theorem step_edit {t : Service} {tx : Tx Db Err Unit} {db : Db} (htx : tx t.db = .ok ((), db)) :
    { t with pipeline := Pipeline.commit t.pipeline tx } = t.store db 0 := by
  simp only [Service.db] at htx
  rw [Pipeline.commit, htx]
  rfl

theorem refining_deleteDocument (h : Acting ctx loc) (documentId : Uuid) :
    Refining env conn (Api.deleteDocument env ctx documentId) loc Answered := by
  refine refining_then (refining_gated (fun _ => .deleteDocument ctx documentId) (fun _ => rfl)
    fun input t a db hl hg htx => ?_) fun _ => refining_audited h _ _ (by simp)
  rw [Service.step, if_pos (h.passes hl hg)]
  exact step_edit htx

theorem refining_updateDocumentAcl (h : Acting ctx loc) (documentId : Uuid) (acl : List String) :
    Refining env conn (Api.updateDocumentAcl env ctx documentId acl) loc Answered := by
  refine refining_then (refining_gated (fun input => .updateDocumentAcl ctx documentId acl input.now) (fun _ => rfl)
    fun input t a db hl hg htx => ?_) fun _ => refining_audited h _ _ (by simp)
  rw [Service.step, if_pos (h.passes hl hg)]
  exact step_edit htx

theorem refining_deleteOrg (h : Acting ctx loc) : Refining env conn (Api.deleteOrg ctx) loc Answered := by
  refine refining_require.bind fun _ loc' hg => ?_
  obtain ⟨rfl, hg⟩ := hg
  refine refining_then (refining_transact (fun _ => .deleteOrg ctx) (fun _ => rfl) fun input t a db hl htx => ?_)
    fun _ => h.answered (by simp)
  rw [Service.step, if_pos (h.passes hl hg), commit_ok htx]

theorem refining_feedback (h : Acting ctx loc) (answerId : Uuid) (rating : Rating) (note : Option String) :
    Refining env conn (Api.feedback ctx answerId rating note) loc Answered := by
  refine refining_then (refining_transact (fun _ => .addFeedback ctx answerId rating note) (fun _ => rfl)
    fun input t a db hl htx => ?_) fun _ => h.answered (by simp)
  rw [Service.step, if_pos (h.passes hl rfl), commit_ok htx]

theorem refining_ask (h : Acting ctx loc) (question : String) (k : Option Nat)
    (hsized : Schemas.sized 1 500 question = true) :
    Refining env conn (Api.ask env deployment ctx question k) loc Answered := by
  refine refining_then (refining_aside (fun _ _ => ⟨rfl, rfl⟩) fun _ _ _ _ => rfl) fun _ => ⟨h.2, ?_⟩
  rintro ctx' question' k' ⟨⟩
  exact ⟨h.1, hsized⟩

/-! ### Every route -/

/-- A method that reads, and a response that is no stream. -/
theorem refining_response {α : Type} (h : Acting ctx loc) {method : Scope α} {response : α → HttpResponse}
    (hm : Proc.ReadOnly method) (hbody : ∀ a ctx' question k, (response a).body ≠ .stream ctx' question k) :
    Refining env conn (do return response (← Api.read method)) loc Answered :=
  refining_then (refining_readOnly fun _ _ => hm) fun a => h.answered (hbody a)

theorem readOnly_getDocument (documentId : Uuid) : Proc.ReadOnly (getDocument ctx documentId) := by
  refine (Proc.ReadOnly.read _).bind fun ps => (Proc.ReadOnly.read _).bind fun d => ?_
  cases d with
  | none => exact Proc.ReadOnly.raise _
  | some d => exact Proc.ReadOnly.pure d

theorem readOnly_exportOrg : Proc.ReadOnly (exportOrg env ctx) := by
  refine (readOnly_gate _).bind fun _ => (Proc.ReadOnly.read _).bind fun members => ?_
  refine (readOnly_sweep (fun _ _ => Proc.ReadOnly.read _) _ _).bind fun rows => ?_
  refine (Proc.ReadOnly.read _).bind fun documents => ?_
  exact (readOnly_sweep (fun _ _ => Proc.ReadOnly.read _) _ _).bind fun _ => Proc.ReadOnly.pure _

theorem readOnly_usageSummary (now : Time) : Proc.ReadOnly (usageSummary env ctx now) := by
  refine (readOnly_gate _).bind fun _ => (Proc.ReadOnly.read _).bind fun _ => (Proc.ReadOnly.read _).bind fun _ => ?_
  exact (Proc.ReadOnly.read _).bind fun _ => (Proc.ReadOnly.read _).bind fun _ => Proc.ReadOnly.pure _

theorem refining_route (req : HttpRequest) (h : Acting ctx loc) (token : String) :
    Refining env conn (Api.route env deployment req ctx token) loc Answered := by
  have hread : ∀ {α : Type} {f : Db → α}, Proc.ReadOnly (Proc.read f : Scope α) := fun {_ f} => .read f
  have hgated : ∀ {α : Type} {g : Except Err Unit} {f : Db → α},
      Proc.ReadOnly (gate g >>= fun _ => Proc.read f : Scope α) := fun {_ g f} =>
    (readOnly_gate g).bind fun _ => .read f
  cases hreq : req.endpoint <;> simp only [Api.route, hreq]
  case changePassword current new => exact refining_changePassword req h token current new
  all_goals refine refining_bounded fun hvalid => ?_
  case me => exact h.answered (by simp)
  case addMember email password role => exact refining_addMember h email password role
  case listMembers limit offset =>
    exact refining_then (refining_readOnly fun _ _ => hread) fun total => refining_response h hread fun _ => by simp
  case setMemberRole userId role => exact refining_setMemberRole h userId role
  case removeMember userId => exact refining_removeMember h userId
  case createGroup name => exact refining_createGroup h name
  case listGroups => exact refining_response h hread fun _ => by simp
  case getGroup groupId => exact refining_response h (readOnly_getGroup groupId) fun _ => by simp
  case deleteGroup groupId => exact refining_then (refining_deleteGroup h groupId) fun _ => h.answered (by simp)
  case listGroupMembers groupId =>
    exact refining_response h ((readOnly_getGroup groupId).bind fun _ => hread) fun _ => by simp
  case addGroupMember groupId email => exact refining_addGroupMember h groupId email
  case removeGroupMember groupId userId => exact refining_removeGroupMember h groupId userId
  case uploadFolder documents => exact refining_uploadFolder h documents
  case listDocuments limit offset =>
    exact refining_then (refining_readOnly fun _ _ => hread) fun total => refining_response h hread fun _ => by simp
  case getDocument documentId => exact refining_response h (readOnly_getDocument documentId) fun _ => by simp
  case deleteDocument documentId => exact refining_deleteDocument h documentId
  case updateDocumentAcl documentId acl => exact refining_updateDocumentAcl h documentId acl
  case exportOrg => exact refining_response h readOnly_exportOrg fun _ => by simp
  case deleteOrg => exact refining_deleteOrg h
  case search query k =>
    refine Resume.Refines.bind (Resume.refines_lift fun _ _ => rfl) fun embedding loc' he => ?_
    subst he
    exact refining_response h (hread.bind fun _ => hread) fun _ => by simp
  case ask question k => exact refining_ask h question k (Bool.and_eq_true_iff.1 hvalid).1
  case auditLog limit offset =>
    exact refining_then (refining_readOnly fun _ _ => hgated) fun total => refining_response h hgated fun _ => by simp
  case usage =>
    exact refining_then (refining_readOnly fun _ _ => readOnly_usageSummary _) fun _ => h.answered (by simp)
  case feedback answerId rating note => exact refining_feedback h answerId rating note
  all_goals exact h.answered (by simp)

/-- Whatever the request, its handler does what the service may do. -/
theorem refining_handle (req : HttpRequest) :
    Refining env conn (Api.handle env deployment req) ⟨[], [], []⟩ Answered := by
  have hroute : Refining env conn (do
      let token ← Resume.lift (Api.bearerToken env req)
      let ctx ← Api.currentCtx env token
      Api.route env deployment req ctx token) ⟨[], [], []⟩ Answered := by
    refine Resume.Refines.bind (Resume.refines_lift fun _ _ => rfl) fun token loc' he => ?_
    subst he
    exact (refining_currentCtx token rfl).bind fun ctx loc' h => refining_route req h token
  cases hreq : req.endpoint <;> simp only [Api.handle, hreq]
  case healthz => exact ⟨rfl, (by simp)⟩
  case signup orgSlug orgName email password => exact refining_signup req orgSlug orgName email password rfl
  case login email password orgSlug => exact refining_login req email password orgSlug rfl
  case logout =>
    refine Resume.Refines.bind (Resume.refines_lift fun _ _ => rfl) fun token loc' he => ?_
    subst he
    exact refining_logout token rfl
  all_goals exact hroute

end KnowledgeDesk.Proofs
