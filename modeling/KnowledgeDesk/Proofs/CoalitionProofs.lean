import KnowledgeDesk.Coalition
import KnowledgeDesk.Proofs.OwnershipProofs
import KnowledgeDesk.Proofs.SessionsProofs

/-!
# No coalition makes itself an owner

Without an owner's call nobody becomes an owner of an org. So a coalition that has no owner can only
come by an owner's account, and it knows neither a password nor a live token of one: what it knows opens
its own accounts, and the accounts it gains are new ones.
-/

open Table

namespace KnowledgeDesk.Proofs

open Coalition

variable {env : Env} {knows : String → Bool} {org : Uuid} {start : Time}

/-! ## Owners come from owners -/

theorem grant_of_owner {ctx : AuthContext} (hctx : ctx.role ≠ .owner) {role : Role}
    (h : requireCanGrant ctx role = .ok ()) : role ≠ .owner :=
  ((requireCanGrant_nonOwner hctx).1 h).2

theorem setMemberRoleGate_grant {ctx : AuthContext} {userId : Uuid} {role : Role}
    (h : setMemberRoleGate ctx userId role = .ok ()) : requireCanGrant ctx role = .ok () := by
  unfold setMemberRoleGate at h
  cases hg : requireCanGrant ctx role with
  | error e => simp [hg, bind, Except.bind] at h
  | ok u => rfl

/-- A step that is no call of an owner of the org leaves it no owner it had not. -/
theorem ownersOf_subset {s : Service} {l : Service.Label} {db : Db} (hw : AccountWrite env s l db)
    (horg : org < s.nextId) (hl : ¬ OwnerActs org l) : ownersOf org db ⊆ ownersOf org s.db := by
  rintro u ⟨m, hm, ho, hu, hr⟩
  cases hw with
  | fewer _ memberships => exact ⟨m, memberships m hm, ho, hu, hr⟩
  | createSession _ _ _ _ _ _ _ memberships => exact ⟨m, memberships ▸ hm, ho, hu, hr⟩
  | changePassword _ _ _ _ _ _ _ _ memberships => exact ⟨m, memberships ▸ hm, ho, hu, hr⟩
  | signup _ _ _ _ _ _ _ m' _ _ _ hnew _ memberships =>
    rw [memberships] at hm
    rcases List.mem_append.1 hm with hold | hfresh
    · exact ⟨m, hold, ho, hu, hr⟩
    · obtain rfl := List.mem_singleton.1 hfresh
      exact absurd horg (by lia)
  | addMember ctx _ _ role _ _ pass _ _ _ _ _ memberships =>
    rw [memberships] at hm
    rcases List.mem_append.1 hm with hold | hfresh
    · exact ⟨m, hold, ho, hu, hr⟩
    · obtain rfl := List.mem_singleton.1 hfresh
      have hctx : ctx.role ≠ .owner := fun hrole => hl ⟨ho, hrole⟩
      exact absurd hr (grant_of_owner hctx (passes_iff.1 pass).2)
  | setMemberRole ctx userId role pass _ memberships =>
    rw [memberships] at hm
    obtain ⟨m₀, hm₀, rfl⟩ := mem_updateWhere.1 hm
    by_cases hp : (m₀.userId == userId && m₀.orgId == ctx.orgId) = true
    · rw [if_pos hp] at ho hr
      have hctx : ctx.role ≠ .owner := by
        intro hrole
        simp only [Bool.and_eq_true, beq_iff_eq] at hp
        exact hl ⟨hp.2.symm.trans ho, hrole⟩
      exact absurd hr (grant_of_owner hctx (setMemberRoleGate_grant (passes_iff.1 pass).2))
    · rw [if_neg hp] at ho hu hr
      exact ⟨m₀, hm₀, ho, hu, hr⟩

/-- The orgs of memberships have ids that have been drawn. -/
def OrgsDrawn (s : Service) : Prop := ∀ m ∈ s.db.memberships, m.orgId < s.nextId

theorem orgsDrawn_step {s : Service} (h : ServiceInv env s) (ho : OrgsDrawn s) (l : Service.Label) :
    OrgsDrawn (Service.step env s l) := by
  have hle : s.nextId ≤ (Service.step env s l).nextId := service_nextId_le s l
  have hfresh := (serviceInv_step h l).tenants.accounts.fresh
  intro m hm
  cases accountWrite_step h l with
  | fewer _ memberships => exact Nat.lt_of_lt_of_le (ho m (memberships m hm)) hle
  | createSession _ _ _ _ _ _ _ memberships => exact Nat.lt_of_lt_of_le (ho m (memberships ▸ hm)) hle
  | changePassword _ _ _ _ _ _ _ _ memberships => exact Nat.lt_of_lt_of_le (ho m (memberships ▸ hm)) hle
  | setMemberRole _ _ _ _ _ memberships =>
    rw [memberships] at hm
    obtain ⟨m₀, hm₀, rfl⟩ := mem_updateWhere.1 hm
    have hlt := Nat.lt_of_lt_of_le (ho m₀ hm₀) hle
    split <;> exact hlt
  | signup _ _ _ _ _ _ _ m' id _ member horg _ memberships =>
    have hlast := hfresh m hm
    rw [memberships] at hm
    rcases List.mem_append.1 hm with hold | hnew
    · exact Nat.lt_of_lt_of_le (ho m hold) hle
    · obtain rfl := List.mem_singleton.1 hnew
      lia
  | addMember ctx _ _ _ _ _ _ horg _ _ _ _ memberships =>
    rw [memberships] at hm
    rcases List.mem_append.1 hm with hold | hnew
    · exact Nat.lt_of_lt_of_le (ho m hold) hle
    · -- the org is one there is, so its owner's membership names it
      obtain rfl := List.mem_singleton.1 hnew
      obtain ⟨o, hom, hid⟩ := List.any_eq_true.1 horg
      obtain ⟨m₀, hm₀, ho₀, -⟩ := h.tenants.accounts.owned o hom
      have hid : o.id = ctx.orgId := by simpa using hid
      have hlt := ho m₀ hm₀
      exact Nat.lt_of_lt_of_le (hid ▸ ho₀ ▸ hlt) hle

/-! ## What the coalition reaches -/

/-- What the coalition knows opens its own accounts, and none of them is an owner of the org. -/
structure Contained (env : Env) (knows : String → Bool) (org : Uuid) (start : Time) (s : Coalition) : Prop where
  sound : SessionsSound env s.service
  orgs : OrgsDrawn s.service
  drawn : org < s.service.nextId
  passwords : ∀ user ∈ s.service.db.users, ∀ p, knows p = true →
    env.verifyPassword p user.passwordHash = true → user.id ∈ s.accounts
  tokens : ∀ raw ∈ s.tokens, ∀ sess ∈ s.service.db.sessions, sess.tokenHash = env.sha256 raw →
    sess.userId ∈ s.accounts ∨ DeadSession start s.service.nextId s.service.db sess
  roles : ∀ u ∈ s.accounts, u ∉ ownersOf org s.service.db
  contexts : ∀ ctx ∈ s.contexts, ctx.userId ∈ s.accounts ∧ (ctx.orgId = org → ctx.role ≠ .owner)

theorem Contained.notOwner {s : Coalition} (h : Contained env knows org start s) {m : Membership}
    (hm : m ∈ s.service.db.memberships) (hu : m.userId ∈ s.accounts) (ho : m.orgId = org) : m.role ≠ .owner :=
  fun hr => h.roles m.userId hu ⟨m, hm, ho, rfl, hr⟩

/-- What a token of the coalition resolves to. -/
theorem Contained.resolves {s : Coalition} (h : Contained env knows org start s) {raw : String} {now : Time}
    {ctx : AuthContext} (hnow : start ≤ now) (hctx : resolveSession env raw now s.service.db = some ctx)
    (hraw : raw ∈ s.tokens) : ctx.userId ∈ s.accounts := by
  obtain ⟨sess, hsess, hhash, huser, horg, hlive, -⟩ := resolveSession_eq_some hctx
  rcases h.tokens raw hraw sess hsess hhash with hmine | hdead
  · exact huser ▸ hmine
  · exact (hdead.not_resolves hnow hctx huser horg hlive).elim

theorem Contained.unescalated {s : Coalition} (h : Contained env knows org start s) :
    Unescalated env org start s := by
  intro raw now ctx hnow hctx hmine horg hrole
  have hu : ctx.userId ∈ s.accounts := hmine.elim (fun hraw => h.resolves hnow hctx hraw) id
  obtain ⟨-, -, -, -, -, -, hcurrent⟩ := resolveSession_eq_some hctx
  obtain ⟨m, hm, hmu, hmo, hmr⟩ := memberRole?_eq_some hcurrent
  exact h.notOwner hm (hmu ▸ hu) (hmo.trans horg) (hmr.trans hrole)

/-- The invariant after a step that is no call of an owner of the org: what the coalition gains are new
accounts, and a new password or a new session that its knowledge opens is one of its own accounts'. -/
theorem Contained.step {s : Coalition} (h : Contained env knows org start s) {l : Service.Label}
    (hl : ¬ OwnerActs org l) {accounts : List Uuid} {tokens : List String} {contexts : List AuthContext}
    (hgrow : ∀ u ∈ s.accounts, u ∈ accounts) (hnew : ∀ u ∈ accounts, u ∈ s.accounts ∨ s.service.nextId ≤ u)
    (hpasswords : ∀ user ∈ (Service.step env s.service l).db.users, user ∈ s.service.db.users ∨ user.id ∈ accounts ∨
      ∀ p, knows p = true → env.verifyPassword p user.passwordHash = false)
    (htokens : ∀ raw ∈ tokens, ∀ sess ∈ (Service.step env s.service l).db.sessions,
      sess.tokenHash = env.sha256 raw → (raw ∈ s.tokens ∧ sess ∈ s.service.db.sessions) ∨ sess.userId ∈ accounts)
    (hcontexts : ∀ ctx ∈ contexts, ctx ∈ s.contexts ∨
      ctx.userId ∈ accounts ∧ (ctx.orgId = org → ctx.role ≠ .owner)) :
    Contained env knows org start ⟨Service.step env s.service l, accounts, tokens, contexts⟩ := by
  have hw := accountWrite_step h.sound.1 l
  constructor
  · exact ⟨serviceInv_step h.sound.1 l, tokensInv_step h.sound.1 h.sound.2 l⟩
  · exact orgsDrawn_step h.sound.1 h.orgs l
  · exact Nat.lt_of_lt_of_le h.drawn (service_nextId_le s.service l)
  · intro user huser p hp hverify
    rcases hpasswords user huser with hold | hmine | hsecret
    · exact hgrow _ (h.passwords user hold p hp hverify)
    · exact hmine
    · exact absurd hverify (by simp [hsecret p hp])
  · intro raw hraw sess hsess hhash
    rcases htokens raw hraw sess hsess hhash with ⟨hraw, hold⟩ | hmine
    · exact (h.tokens raw hraw sess hold hhash).imp (hgrow _) hw.deadSession
    · exact .inl hmine
  · intro u hu hown
    obtain ⟨m, hm, ho, rfl, hr⟩ := ownersOf_subset hw h.drawn hl hown
    rcases hnew m.userId hu with hold | hfresh
    · exact h.notOwner hm hold ho hr
    · have hlt : m.userId < s.service.nextId := h.sound.1.tenants.accounts.fresh m hm
      lia
  · intro ctx hctx
    rcases hcontexts ctx hctx with hold | hgood
    · exact ⟨hgrow _ (h.contexts ctx hold).1, (h.contexts ctx hold).2⟩
    · exact hgood

/-- A step of somebody else. -/
theorem contained_other {s : Coalition} (h : Contained env knows org start s) {l : Service.Label}
    (hl : ¬ OwnerActs org l) (hsecret : s.Secret env knows l) :
    Contained env knows org start { s with service := Service.step env s.service l } := by
  have hw := accountWrite_step h.sound.1 l
  refine h.step hl (fun _ hu => hu) (fun _ hu => .inl hu) (fun user huser => ?_)
    (fun raw hraw sess hsess hhash => ?_) fun _ hctx => .inl hctx
  · cases hw with
    | fewer users => exact .inl (users user huser)
    | createSession _ _ _ _ _ _ users => exact .inl (users ▸ huser)
    | setMemberRole _ _ _ _ users => exact .inl (users ▸ huser)
    | signup _ _ _ _ _ _ _ _ _ hash _ _ users =>
      rw [users] at huser
      rcases List.mem_append.1 huser with hold | hnew
      · exact .inl hold
      · obtain rfl := List.mem_singleton.1 hnew
        exact .inr (.inr fun p hp => hash ▸ hsecret p hp)
    | addMember _ _ _ _ _ _ _ _ _ _ hash users =>
      rw [users] at huser
      rcases List.mem_append.1 huser with hold | hnew
      · exact .inl hold
      · obtain rfl := List.mem_singleton.1 hnew
        exact .inr (.inr fun p hp => hash ▸ hsecret p hp)
    | changePassword ctx _ _ _ _ _ _ users =>
      rw [users] at huser
      obtain ⟨user₀, huser₀, rfl⟩ := mem_updateWhere.1 huser
      by_cases hid : (user₀.id == ctx.userId) = true
      · rw [if_pos hid]
        exact .inr (.inr fun p hp => hsecret p hp)
      · rw [if_neg hid]
        exact .inl huser₀
  · rcases hw.session hsess with hold | ⟨ctx, raw', now, rfl, -, hhash', -⟩
    · exact .inl ⟨hraw, hold⟩
    · exact absurd (hhash.symm.trans hhash') (hsecret raw hraw)

/-- The step opens no account and creates no session. -/
def Plain : Service.Label → Prop
  | .signup .. | .createSession .. | .member (.addMember ..) => False
  | _ => True

/-- Such a step of the coalition. -/
theorem contained_plain {s : Coalition} (h : Contained env knows org start s) {l : Service.Label}
    (hl : ¬ OwnerActs org l) (hactor : ∀ ctx, l.actor = some ctx → ctx ∈ s.contexts) (hplain : Plain l)
    {contexts : List AuthContext} (hcontexts : ∀ ctx ∈ contexts, ctx ∈ s.contexts ∨
      ctx.userId ∈ s.accounts ∧ (ctx.orgId = org → ctx.role ≠ .owner)) :
    Contained env knows org start ⟨Service.step env s.service l, s.accounts, s.tokens, contexts⟩ := by
  have hw := accountWrite_step h.sound.1 l
  refine h.step hl (fun _ hu => hu) (fun _ hu => .inl hu) (fun user huser => ?_)
    (fun raw hraw sess hsess _ => ?_) hcontexts
  · cases hw with
    | fewer users => exact .inl (users user huser)
    | setMemberRole _ _ _ _ users => exact .inl (users ▸ huser)
    | changePassword ctx _ _ _ _ _ _ users =>
      rw [users] at huser
      obtain ⟨user₀, huser₀, rfl⟩ := mem_updateWhere.1 huser
      by_cases hid : (user₀.id == ctx.userId) = true
      · have hmine : ctx.userId ∈ s.accounts := (h.contexts ctx (hactor ctx rfl)).1
        rw [if_pos hid, show user₀.id = ctx.userId by simpa using hid]
        exact .inr (.inl hmine)
      · rw [if_neg hid]
        exact .inl huser₀
    | signup => exact hplain.elim
    | addMember => exact hplain.elim
    | createSession => exact hplain.elim
  · rcases hw.session hsess with hold | ⟨ctx, raw', now, rfl, -⟩
    · exact .inl ⟨hraw, hold⟩
    · exact hplain.elim

/-- The coalition opens an org of its own. -/
theorem contained_signup {s : Coalition} (h : Contained env knows org start s)
    {orgSlug orgName email password salt : String} {now : Time} :
    Contained env knows org start { s.gain env (.signup orgSlug orgName email password salt now) with
      service := Service.step env s.service (.signup orgSlug orgName email password salt now) } := by
  have hl : ¬ OwnerActs org (.signup orgSlug orgName email password salt now) := id
  simp only [gain]
  split
  · rename_i ctx db' hok
    have hstep : Service.step env s.service (.signup orgSlug orgName email password salt now) =
        (s.service.store db' 2).issue ctx := by
      simp only [Service.step, hok]
    obtain ⟨huser, horg, -, user, hid, -, rfl⟩ := createOrgWithOwner_ok hok
    refine h.step hl (fun _ hu => List.mem_cons_of_mem _ hu) (fun u hu => ?_) (fun user' huser' => ?_)
      (fun raw hraw sess hsess _ => ?_) fun ctx' hctx' => ?_
    · rcases List.mem_cons.1 hu with rfl | hold
      · exact .inr (by lia)
      · exact .inl hold
    · rw [hstep] at huser'
      rcases List.mem_append.1 huser' with hold | hnew
      · exact .inl hold
      · rw [List.mem_singleton.1 hnew, hid, ← huser]
        exact .inr (.inl List.mem_cons_self)
    · rw [hstep] at hsess
      exact .inl ⟨hraw, hsess⟩
    · rcases List.mem_cons.1 hctx' with rfl | hold
      · refine .inr ⟨List.mem_cons_self, fun ho => absurd h.drawn ?_⟩
        lia
      · exact .inl hold
  · rename_i hfail
    have hstep : Service.step env s.service (.signup orgSlug orgName email password salt now) = s.service := by
      simp only [Service.step, hfail]
    rw [hstep]
    exact h

/-- The coalition starts a session. -/
theorem contained_createSession {s : Coalition} (h : Contained env knows org start s) {ctx : AuthContext}
    {raw : String} {now : Time} (hctx : ctx ∈ s.contexts) :
    Contained env knows org start { s.gain env (.createSession ctx raw now) with
      service := Service.step env s.service (.createSession ctx raw now) } := by
  have hl : ¬ OwnerActs org (.createSession ctx raw now) := id
  have hw := accountWrite_step h.sound.1 (.createSession ctx raw now)
  have husers : ∀ user ∈ (Service.step env s.service (.createSession ctx raw now)).db.users,
      user ∈ s.service.db.users := by
    intro user huser
    cases hw with
    | fewer users => exact users user huser
    | createSession _ _ _ _ _ _ users => exact users ▸ huser
  have hsessions : ∀ sess ∈ (Service.step env s.service (.createSession ctx raw now)).db.sessions,
      sess ∈ s.service.db.sessions ∨ sess.userId ∈ s.accounts := by
    intro sess hsess
    rcases hw.session hsess with hold | ⟨ctx', raw', now', he, -, -, huser⟩
    · exact .inl hold
    · obtain ⟨rfl, rfl, rfl⟩ := Service.Label.createSession.inj he
      exact .inr (huser ▸ (h.contexts ctx hctx).1)
  simp only [gain]
  split
  · rename_i r hok
    refine h.step hl (fun _ hu => hu) (fun _ hu => .inl hu) (fun user huser => .inl (husers user huser))
      (fun token htoken sess hsess hhash => ?_) fun _ hc => .inl hc
    rcases hsessions sess hsess with hold | hmine
    · rcases List.mem_cons.1 htoken with rfl | hmine
      · -- there was no session of the new token's hash
        exact absurd hhash ((createSession_ok hok).1 sess hold)
      · exact .inl ⟨hmine, hold⟩
    · exact .inr hmine
  · refine h.step hl (fun _ hu => hu) (fun _ hu => .inl hu) (fun user huser => .inl (husers user huser))
      (fun token htoken sess hsess _ => ?_) fun _ hc => .inl hc
    exact (hsessions sess hsess).imp_left fun hold => ⟨htoken, hold⟩

/-- The coalition adds a member, with a password of its choice. -/
theorem contained_addMember {s : Coalition} (h : Contained env knows org start s) {ctx : AuthContext}
    {email password salt : String} {role : Role} {now : Time} (hctx : ctx ∈ s.contexts) :
    Contained env knows org start { s.gain env (.member (.addMember ctx email password role salt now)) with
      service := Service.step env s.service (.member (.addMember ctx email password role salt now)) } := by
  set l : Service.Label := .member (.addMember ctx email password role salt now) with hlabel
  have hl : ¬ OwnerActs org l := fun hacts => (h.contexts ctx hctx).2 hacts.1 hacts.2
  by_cases hpass : s.service.passes ctx (requireCanGrant ctx role) = true
  · have hstep : Service.step env s.service l =
        s.service.commit ((MemberCall.addMember ctx email password role salt now).tx env s.service.nextId) 1 := by
      simp only [hlabel, Service.step]
      exact if_pos hpass
    cases hok : addMember env ctx.orgId email password role salt s.service.nextId now s.service.db with
    | error e =>
      have hgain : s.gain env l = s := by simp only [hlabel, gain, hok]
      have hnoop : Service.step env s.service l = s.service := by
        simp only [hstep, Service.commit, MemberCall.tx, hok, Except.map]
      rw [hgain, hnoop]
      exact h
    | ok r =>
      obtain ⟨userId, db'⟩ := r
      have hgain : s.gain env l = { s with accounts := userId :: s.accounts } := by
        simp only [hlabel, gain, hok, if_pos hpass]
      have hdb : (Service.step env s.service l).db = db' := by
        simp only [hstep, Service.commit, MemberCall.tx, hok, Except.map]
        rfl
      obtain ⟨rfl, -, user, hid, -, rfl⟩ := addMember_ok hok
      rw [hgain]
      refine h.step hl (fun _ hu => List.mem_cons_of_mem _ hu) (fun u hu => ?_) (fun user' huser' => ?_)
        (fun raw hraw sess hsess _ => ?_) fun _ hc => .inl hc
      · rcases List.mem_cons.1 hu with rfl | hold
        · exact .inr (le_refl _)
        · exact .inl hold
      · rw [hdb] at huser'
        rcases List.mem_append.1 huser' with hold | hnew
        · exact .inl hold
        · rw [List.mem_singleton.1 hnew, hid]
          exact .inr (.inl List.mem_cons_self)
      · rw [hdb] at hsess
        exact .inl ⟨hraw, hsess⟩
  · have hnoop : Service.step env s.service l = s.service := by
      simp only [hlabel, Service.step]
      exact if_neg hpass
    have hgain : s.gain env l = s := by
      simp only [hlabel, gain, if_neg hpass]
      split <;> rfl
    rw [hgain, hnoop]
    exact h

theorem may_actor {s : Coalition} {l : Service.Label} (h : s.may knows l = true) {ctx : AuthContext}
    (hctx : l.actor = some ctx) : ctx ∈ s.contexts := by
  have hall := (Bool.and_eq_true_iff.1 h).1
  rw [hctx] at hall
  simpa using hall

/-- A step of the coalition. -/
theorem contained_coalition {s : Coalition} (h : Contained env knows org start s) {l : Service.Label}
    (hmay : s.may knows l = true) (hclock : ∀ raw now, l = .resolveSession raw now → start ≤ now) :
    Contained env knows org start { s.gain env l with service := Service.step env s.service l } := by
  have hactor : ∀ ctx, l.actor = some ctx → ctx ∈ s.contexts := fun ctx => may_actor hmay
  have hl : ¬ OwnerActs org l := by
    intro hacts
    cases l with
    | member call => exact (h.contexts call.ctx (hactor call.ctx rfl)).2 hacts.1 hacts.2
    | _ => exact hacts
  have hplain : Plain l → s.gain env l = s →
      Contained env knows org start { s.gain env l with service := Service.step env s.service l } := by
    intro hplain hgain
    rw [hgain]
    exact contained_plain h hl hactor hplain fun _ hc => .inl hc
  have hlearns : Plain l → ∀ ctx : AuthContext, ctx.userId ∈ s.accounts ∧ (ctx.orgId = org → ctx.role ≠ .owner) →
      s.gain env l = { s with contexts := ctx :: s.contexts } →
      Contained env knows org start { s.gain env l with service := Service.step env s.service l } := by
    intro hplain ctx hctx hgain
    rw [hgain]
    refine contained_plain h hl hactor hplain fun ctx' hctx' => ?_
    rcases List.mem_cons.1 hctx' with rfl | hold
    · exact .inr hctx
    · exact .inl hold
  cases l with
  | signup orgSlug orgName email password salt now => exact contained_signup h
  | createSession ctx raw now => exact contained_createSession h (hactor ctx rfl)
  | member call =>
    cases call with
    | addMember ctx email password role salt now => exact contained_addMember h (hactor ctx rfl)
    | _ => exact hplain trivial rfl
  | login email password orgSlug =>
    cases hok : authenticate env email password orgSlug s.service.db with
    | error e => exact hplain trivial (by simp only [gain, hok])
    | ok ctx =>
      -- a known password is that of an account of the coalition
      have hknown : knows password = true := (Bool.and_eq_true_iff.1 hmay).2
      obtain ⟨⟨user, huser, hid, hverify⟩, m, hm, hu, ho, hr⟩ := authenticate_ok hok
      have hmine : ctx.userId ∈ s.accounts := hid ▸ h.passwords user huser password hknown hverify
      refine hlearns trivial ctx ⟨hmine, fun horg => ?_⟩ (by simp only [gain, hok])
      rw [← hr]
      exact h.notOwner hm (hu ▸ hmine) (ho.trans horg)
  | resolveSession raw now =>
    cases hok : resolveSession env raw now s.service.db with
    | none => exact hplain trivial (by simp only [gain, hok])
    | some ctx =>
      have hnow := hclock raw now rfl
      have hraw : raw ∈ s.tokens := by
        have hheld := (Bool.and_eq_true_iff.1 hmay).2
        simpa using hheld
      have hmine := h.resolves hnow hok hraw
      exact hlearns trivial ctx ⟨hmine, h.unescalated raw now ctx hnow hok (.inl hraw)⟩
        (by simp only [gain, hok])
  | _ => exact hplain trivial rfl

theorem contained_step {s : Coalition} (h : Contained env knows org start s) {l : Label}
    (hl : Allowed env knows org start s l) : Contained env knows org start (step env knows s l) := by
  cases l with
  | other l => exact contained_other h hl.1 hl.2
  | coalition l =>
    simp only [step]
    split
    · rename_i hmay
      refine contained_coalition h hmay ?_
      rintro raw now rfl
      exact hl
    · exact h

/-- No coalition escalates to owner. In whatever state of the service the coalition starts, with whatever
passwords and tokens it knows, and with no request of its own under way: as long as its accounts include
every account that one of its passwords opens or one of its tokens resolves to, and none of them is an
owner of the org, no run without a call of somebody else who is an owner makes a token that the coalition
holds, or that is one of the accounts it has come to control, resolve to an owner of the org. -/
theorem no_coalition_escalates {s : Coalition} (hs : Service.Reachable env s.service)
    (horg : s.service.db.hasOrg org = true) (hidle : s.contexts = [])
    (hpasswords : ∀ user ∈ s.service.db.users, ∀ p, knows p = true →
      env.verifyPassword p user.passwordHash = true → user.id ∈ s.accounts)
    (htokens : ∀ raw ∈ s.tokens, ∀ ctx, resolveSession env raw start s.service.db = some ctx →
      ctx.userId ∈ s.accounts)
    (hroles : ∀ u ∈ s.accounts, memberRole? u org s.service.db ≠ some .owner) {ls : List Label}
    (hls : Runs.EachStep (step env knows) (Allowed env knows org start) s ls) :
    Runs.Throughout (step env knows) (Unescalated env org start) s ls := by
  obtain ⟨labels, hrun⟩ := hs
  have hsound : SessionsSound env s.service := hrun ▸ sessionsSound_run labels
  have hdrawn : OrgsDrawn s.service := by
    have hinit : ServiceInv env Service.init ∧ OrgsDrawn Service.init := ⟨serviceInv_init, fun _ hm => by cases hm⟩
    have hinv := Runs.run_inv (P := fun s => ServiceInv env s ∧ OrgsDrawn s)
      (fun s l hs => ⟨serviceInv_step hs.1 l, orgsDrawn_step hs.1 hs.2 l⟩) hinit labels
    exact hrun ▸ hinv.2
  have hstart : Contained env knows org start s := by
    refine ⟨hsound, hdrawn, ?_, hpasswords, fun raw hraw sess hsess hhash => ?_, fun u hu hown => ?_, by simp [hidle]⟩
    · -- the org has an owner, whose membership names it
      obtain ⟨o, ho, hid⟩ := List.any_eq_true.1 horg
      obtain ⟨m, hm, hmo, -⟩ := hsound.1.tenants.accounts.owned o ho
      have hid : o.id = org := by simpa using hid
      exact hid ▸ hmo ▸ hdrawn m hm
    · cases hctx : resolveSession env raw start s.service.db with
      | none =>
        exact .inr (deadToken_of_none hsound.2 hsound.1.tenants.accounts.toMembersInv hctx sess hsess hhash)
      | some ctx =>
        obtain ⟨sess', hsess', hhash', huser, -⟩ := resolveSession_eq_some hctx
        obtain rfl := Table.eq_of_key hsound.2.hashes hsess' hsess (hhash'.trans hhash.symm)
        exact .inl (huser ▸ htokens raw hraw ctx hctx)
    · exact hroles u hu ((mem_ownersOf_iff hsound.1.tenants.accounts).1 hown)
  have hcontained : Runs.Throughout (step env knows) (Contained env knows org start) s ls :=
    Runs.throughout_of_eachStep (fun s l hc hl => contained_step hc hl) hstart hls
  exact hcontained.mono fun s hc => hc.unescalated

/-- Ann's org, of which Bob is an admin with a session. -/
def annsService : Service :=
  let ann : AuthContext := ⟨1, 0, .owner, "ann"⟩
  Runs.run (Service.step (asciiEnv id)) Service.init
    [.signup "acme" "Acme" "ann" "correct" "salt" 0, .member (.addMember ann "bob" "hunter2" .admin "salt" 0),
      .login "bob" "hunter2" none, .createSession ⟨2, 0, .admin, "bob"⟩ "bobs" 0]

/-- Bob adds Eve as an admin, with a password he chose, while Ann logs in. -/
def bobAddsEve : List Label :=
  let bob : AuthContext := ⟨2, 0, .admin, "bob"⟩
  [.coalition (.resolveSession "bobs" 1), .coalition (.member (.addMember bob "eve" "letmein" .admin "salt" 1)),
    .other (.login "ann" "correct" none), .other (.createSession ⟨1, 0, .owner, "ann"⟩ "anns" 2),
    .coalition (.login "eve" "letmein" none), .coalition (.createSession ⟨3, 0, .admin, "eve"⟩ "eves" 3)]

/-- Eve is an admin at the end, and no more. -/
theorem no_coalition_escalates_with_eve :
    let knows := fun p => ["hunter2", "letmein"].contains p
    let s : Coalition := ⟨annsService, [2], ["bobs"], []⟩
    Runs.Throughout (step (asciiEnv id) knows) (Unescalated (asciiEnv id) 0 1) s bobAddsEve ∧
    resolveSession (asciiEnv id) "eves" 4 (Runs.run (step (asciiEnv id) knows) s bobAddsEve).service.db =
      some ⟨3, 0, .admin, "eve"⟩ := by
  intro knows s
  refine ⟨no_coalition_escalates ⟨_, rfl⟩ (by decide +kernel) rfl ?_ ?_ (by decide +kernel) ?_, by decide +kernel⟩
  · have hopened : ∀ user ∈ s.service.db.users, ∀ p ∈ ["hunter2", "letmein"],
        (asciiEnv id).verifyPassword p user.passwordHash = true → user.id ∈ s.accounts := by
      decide +kernel
    exact fun user huser p hp => hopened user huser p (List.contains_iff_mem.1 hp)
  · intro raw hraw ctx hctx
    have hbob : resolveSession (asciiEnv id) "bobs" 1 annsService.db = some ⟨2, 0, .admin, "bob"⟩ := by
      decide +kernel
    rw [List.mem_singleton.1 hraw] at hctx
    obtain rfl := Option.some.inj (hctx.symm.trans hbob)
    exact List.mem_singleton_self 2
  · refine ⟨le_refl (1 : Time), trivial, ⟨id, trivial⟩, ⟨id, ?_⟩, trivial, trivial, trivial⟩
    show ∀ token ∈ (Runs.run (step (asciiEnv id) knows) s (bobAddsEve.take 3)).tokens, token ≠ "anns"
    decide +kernel

end KnowledgeDesk.Proofs
