import KnowledgeDesk.Proofs.ServiceProofs

/-!
# Owners manage ownership

The calls of members who are not owners never give the role of owner. They take it from somebody
exactly when an admin demotes or removes an owner of an org that has another one.
-/

open Table

namespace KnowledgeDesk.Proofs

open Runs Service

variable {env : Env}

/-- The owners of an org. -/
def ownersOf (orgId : Uuid) (db : Db) : Set Uuid :=
  {u | ∃ m ∈ db.memberships, m.orgId = orgId ∧ m.userId = u ∧ m.role = .owner}

instance (orgId : Uuid) (db : Db) (u : Uuid) : Decidable (u ∈ ownersOf orgId db) :=
  inferInstanceAs (Decidable (∃ m ∈ db.memberships, m.orgId = orgId ∧ m.userId = u ∧ m.role = .owner))

/-- A call on the org's memberships by somebody who is not an owner, or a login that leads to one. -/
def ByNonOwner (orgId : Uuid) : Label → Prop
  | .member call => call.orgId = orgId ∧ call.ctx.role ≠ .owner
  | .login .. | .resolveSession .. => True
  | _ => False

/-- An admin demotes or removes somebody else who is an owner, and not the last one. -/
def Unseats (orgId : Uuid) (s : Service) : Label → Prop
  | .member call => call.ctx ∈ s.issued ∧ call.ctx.role = .admin ∧ ∃ userId ∈ call.demotes,
      userId ≠ call.ctx.userId ∧ memberRole? userId orgId s.db = some .owner ∧ ownerCount orgId s.db ≠ 1
  | _ => False

instance (orgId : Uuid) (s : Service) : ∀ l, Decidable (Unseats orgId s l)
  | .member call => inferInstanceAs (Decidable (call.ctx ∈ s.issued ∧ call.ctx.role = .admin ∧
      ∃ userId ∈ call.demotes, userId ≠ call.ctx.userId ∧ memberRole? userId orgId s.db = some .owner ∧
        ownerCount orgId s.db ≠ 1))
  | .signup .. | .login .. | .createSession .. | .resolveSession .. | .logout .. | .changePassword ..
  | .purgeExpiredSessions .. | .deleteOrg .. | .createGroup .. | .getGroup .. | .addGroupMember ..
  | .removeGroupMember .. | .deleteGroup .. | .syncSource .. | .updateDocumentAcl .. | .deleteDocument ..
  | .background .. | .ask .. | .block .. | .finalize .. | .addFeedback .. | .audit .. =>
    inferInstanceAs (Decidable False)

/-! ## What passes the gates -/

theorem requireRole_ok {ctx : AuthContext} {minimum : Role} :
    requireRole ctx minimum = .ok () ↔ minimum.rank ≤ ctx.role.rank := by
  by_cases h : minimum.rank ≤ ctx.role.rank <;> simp [requireRole, roleAtLeast, h]

section NonOwner

variable {ctx : AuthContext} (hrole : ctx.role ≠ .owner)
include hrole

/-- Of callers who are not owners only admins are admins or better. -/
theorem requireRole_nonOwner : requireRole ctx .admin = .ok () ↔ ctx.role = .admin := by
  rw [requireRole_ok]
  revert hrole
  cases ctx.role <;> simp [Role.rank]

/-- Only admins grant roles, and not the role of owner. -/
theorem requireCanGrant_nonOwner {role : Role} :
    requireCanGrant ctx role = .ok () ↔ ctx.role = .admin ∧ role ≠ .owner := by
  by_cases hadmin : ctx.role = .admin
  · have hok := (requireRole_nonOwner hrole).2 hadmin
    simp only [requireCanGrant, hok, bind, Except.bind, roleAtLeast, hadmin]
    cases role <;> simp [Role.rank]
  · have hno := mt (requireRole_nonOwner hrole).1 hadmin
    cases hr : requireRole ctx .admin with
    | error e => simp [requireCanGrant, hr, bind, Except.bind, hadmin]
    | ok u => exact absurd hr hno

end NonOwner

/-- A gate and then the check that the caller is not their own target. -/
theorem gate_then_self {g : Except Err Unit} {u v : Uuid} {e : Err} :
    (do g; if u = v then Except.error e else .ok ()) = .ok () ↔ g = .ok () ∧ u ≠ v := by
  cases g with
  | error e => simp [bind, Except.bind]
  | ok w => by_cases huv : u = v <;> simp [bind, Except.bind, huv]

/-! ## One call -/

theorem mem_ownersOf_updateRole {userId orgId u : Uuid} {role : Role} (hrole : role ≠ .owner) {db : Db} :
    u ∈ ownersOf orgId (updateRole userId orgId role db) ↔ u ∈ ownersOf orgId db ∧ u ≠ userId := by
  constructor
  · rintro ⟨m, hm, ho, hu, hr⟩
    obtain ⟨m₀, hm₀, rfl⟩ := mem_updateWhere.1 hm
    by_cases hp : m₀.userId = userId ∧ m₀.orgId = orgId
    · simp only [hp, beq_self_eq_true, Bool.and_self, if_true] at hr
      exact absurd hr hrole
    · have hp' : (m₀.userId == userId && m₀.orgId == orgId) = false := by simpa using hp
      simp only [hp', Bool.false_eq_true, if_false] at ho hu hr
      exact ⟨⟨m₀, hm₀, ho, hu, hr⟩, fun he => hp ⟨hu.trans he, ho⟩⟩
  · rintro ⟨⟨m, hm, ho, hu, hr⟩, hne⟩
    exact ⟨m, mem_updateWhere.2 ⟨m, hm, by simp [hu, hne]⟩, ho, hu, hr⟩

theorem mem_ownersOf_removeMember {userId orgId u : Uuid} {db : Db} :
    u ∈ ownersOf orgId (purgeStrandedUsers [userId] (deleteMembership userId orgId db)) ↔
      u ∈ ownersOf orgId db ∧ u ≠ userId := by
  simp only [ownersOf, Set.mem_ofPred_eq, purge_memberships, mem_deleteMembership]
  constructor
  · rintro ⟨m, ⟨hm, hno⟩, ho, rfl, hr⟩
    exact ⟨⟨m, hm, ho, rfl, hr⟩, fun he => hno ⟨he, ho⟩⟩
  · rintro ⟨⟨m, hm, ho, rfl, hr⟩, hne⟩
    exact ⟨m, ⟨hm, fun h => hne h.1⟩, ho, rfl, hr⟩

theorem mem_ownersOf_iff {n : Nat} {db : Db} (h : AccountsInv n db) {u orgId : Uuid} :
    u ∈ ownersOf orgId db ↔ memberRole? u orgId db = some .owner := by
  constructor
  · rintro ⟨m, hm, rfl, rfl, hr⟩
    rw [memberRole?_of_mem h.toMembersInv hm, hr]
  · intro hr
    obtain ⟨m, hm, hu, ho, hr⟩ := memberRole?_eq_some hr
    exact ⟨m, hm, ho, hu, hr⟩

/-- A call that takes the role of owner from one user, if they have it. -/
theorem demotion_owners {orgId userId : Uuid} {db db' : Db} (hmem : ∀ u, u ∈ ownersOf orgId db' ↔
      u ∈ ownersOf orgId db ∧ u ≠ userId) :
    ownersOf orgId db' ≤ ownersOf orgId db ∧
      (ownersOf orgId db' = ownersOf orgId db ↔ userId ∉ ownersOf orgId db) := by
  refine ⟨fun u hu => ((hmem u).1 hu).1, ⟨fun he hu => ?_, fun hno => Set.ext fun u => ?_⟩⟩
  · exact ((hmem userId).1 (he ▸ hu)).2 rfl
  · rw [hmem]
    exact and_iff_left_of_imp fun hu he => hno (he ▸ hu)

/-- A call that would take the role of owner from `userId`. -/
theorem demoting_step {s : Service} (h : ServiceInv env s) {call : MemberCall} {userId : Uuid}
    (hin : call.ctx ∈ s.issued) (hdem : call.demotes = some userId)
    (hgate : call.gate = .ok () ↔ call.ctx.role = .admin ∧ userId ≠ call.ctx.userId)
    (hok : ∀ target, memberRole? userId call.orgId s.db = some target →
      ¬ (target = .owner ∧ ownerCount call.orgId s.db = 1) → ∃ r, call.tx env s.nextId s.db = .ok r)
    (hmem : ∀ db', call.tx env s.nextId s.db = .ok ((), db') →
      (memberRole? userId call.orgId s.db = some .owner → ownerCount call.orgId s.db ≠ 1) ∧
      ∀ u, u ∈ ownersOf call.orgId db' ↔ u ∈ ownersOf call.orgId s.db ∧ u ≠ userId) :
    ownersOf call.orgId (Service.step env s (.member call)).db ≤ ownersOf call.orgId s.db ∧
      (ownersOf call.orgId (Service.step env s (.member call)).db = ownersOf call.orgId s.db ↔
        ¬ Unseats call.orgId s (.member call)) := by
  have hun : Unseats call.orgId s (.member call) ↔ call.gate = .ok () ∧
      memberRole? userId call.orgId s.db = some .owner ∧ ownerCount call.orgId s.db ≠ 1 := by
    simp only [Unseats, hdem, Option.mem_def, Option.some.injEq, exists_eq_left', hgate, hin, true_and,
      and_assoc]
  have hsame : ∀ {s' : Service}, s' = s → ¬ Unseats call.orgId s (.member call) →
      ownersOf call.orgId s'.db ≤ ownersOf call.orgId s.db ∧
        (ownersOf call.orgId s'.db = ownersOf call.orgId s.db ↔ ¬ Unseats call.orgId s (.member call)) := by
    rintro s' rfl hno
    exact ⟨le_refl _, ⟨fun _ => hno, fun _ => rfl⟩⟩
  simp only [Service.step, Service.commit]
  by_cases hpass : call.gate = .ok ()
  · rw [if_pos (passes_iff.2 ⟨hin, hpass⟩)]
    split
    · rename_i db' htx
      obtain ⟨hlast, hmem⟩ := hmem db' htx
      obtain ⟨hle, hiff⟩ := demotion_owners hmem
      refine ⟨hle, hiff.trans ?_⟩
      rw [hun, mem_ownersOf_iff h.tenants.accounts]
      exact not_congr ⟨fun hown => ⟨hpass, hown, hlast hown⟩, fun hu => hu.2.1⟩
    · rename_i e htx
      refine hsame rfl fun hu => ?_
      obtain ⟨-, hown, hone⟩ := hun.1 hu
      obtain ⟨r, hr⟩ := hok .owner hown fun hl => hone hl.2
      simp [htx] at hr
  · rw [if_neg fun hp => hpass (passes_iff.1 hp).2]
    exact hsame rfl fun hu => hpass (hun.1 hu).1

/-- One step of somebody who is not an owner: no owner is made, and one is lost iff the step unseats. -/
theorem ownersOf_step {orgId : Uuid} {s : Service} (h : ServiceInv env s) {l : Label}
    (hl : ByNonOwner orgId l) :
    ownersOf orgId (Service.step env s l).db ≤ ownersOf orgId s.db ∧
      (ownersOf orgId (Service.step env s l).db = ownersOf orgId s.db ↔ ¬ Unseats orgId s l) := by
  have hsame : ∀ {s' : Service}, s'.db.memberships = s.db.memberships → ¬ Unseats orgId s l →
      ownersOf orgId s'.db ≤ ownersOf orgId s.db ∧
        (ownersOf orgId s'.db = ownersOf orgId s.db ↔ ¬ Unseats orgId s l) := by
    intro s' hm hno
    have he : ownersOf orgId s'.db = ownersOf orgId s.db := by simp only [ownersOf, hm]
    exact ⟨he.le, ⟨fun _ => hno, fun _ => he⟩⟩
  cases l with
  | login email password orgSlug =>
    refine hsame ?_ not_false
    simp only [Service.step]
    split <;> rfl
  | resolveSession raw now =>
    refine hsame ?_ not_false
    simp only [Service.step]
    split <;> rfl
  | member call =>
    obtain ⟨rfl, hrole⟩ := hl
    -- a call that does not pass its gate, or whose transaction aborts, is no step
    by_cases hin : call.ctx ∈ s.issued
    · cases call with
      | setMemberRole ctx userId role =>
        replace hrole : ctx.role ≠ .owner := hrole
        by_cases hr : role = .owner
        · set call := MemberCall.setMemberRole ctx userId role with hcall
          have hno : ¬ s.passes call.ctx call.gate = true := by
            intro hp
            have hg := (passes_iff.1 hp).2
            rw [hcall, MemberCall.gate, setMemberRoleGate, gate_then_self,
              requireCanGrant_nonOwner hrole] at hg
            exact hg.1.2 hr
          refine hsame ?_ fun hunseats => ?_
          · simp only [Service.step, if_neg hno]
          · obtain ⟨-, -, u, hu, -⟩ := hunseats
            simp [hcall, MemberCall.demotes, hr] at hu
        · refine demoting_step h hin (if_neg hr) ?_ ?_ ?_
          · rw [MemberCall.gate, setMemberRoleGate, gate_then_self, requireCanGrant_nonOwner hrole]
            simp [hr, MemberCall.ctx]
          · intro target htarget hguard
            replace htarget : memberRole? userId ctx.orgId s.db = some target := htarget
            refine ⟨((), updateRole userId ctx.orgId role s.db), ?_⟩
            simp only [MemberCall.tx, setMemberRoleTx, htarget]
            exact if_neg fun hl => hguard ⟨hl.1, hl.2.2⟩
          · intro db' htx
            obtain ⟨target, htarget, hguard, rfl⟩ := setMemberRoleTx_ok htx
            refine ⟨fun hown hone => hguard ?_, fun u => mem_ownersOf_updateRole hr⟩
            exact ⟨Option.some.inj (htarget.symm.trans hown), hr, hone⟩
      | removeMember ctx userId =>
        replace hrole : ctx.role ≠ .owner := hrole
        refine demoting_step h hin rfl ?_ ?_ ?_
        · rw [MemberCall.gate, removeMemberGate, gate_then_self, requireRole_nonOwner hrole]
          rfl
        · intro target htarget hguard
          replace htarget : memberRole? userId ctx.orgId s.db = some target := htarget
          refine ⟨((), purgeStrandedUsers [userId] (deleteMembership userId ctx.orgId s.db)), ?_⟩
          simp only [MemberCall.tx, removeMemberTx, htarget]
          exact if_neg hguard
        · intro db' htx
          obtain ⟨target, htarget, hguard, rfl⟩ := removeMemberTx_ok htx
          refine ⟨fun hown hone => hguard ?_, fun u => mem_ownersOf_removeMember⟩
          exact ⟨Option.some.inj (htarget.symm.trans hown), hone⟩
      | addMember ctx email password role salt now =>
        have hno : ¬ Unseats ctx.orgId s (.member (.addMember ctx email password role salt now)) := by
          simp [Unseats, MemberCall.demotes]
        have hrefl : ∀ {db' : Db}, ownersOf ctx.orgId db' = ownersOf ctx.orgId s.db →
            ownersOf ctx.orgId db' ≤ ownersOf ctx.orgId s.db ∧ (ownersOf ctx.orgId db' =
              ownersOf ctx.orgId s.db ↔
                ¬ Unseats ctx.orgId s (.member (.addMember ctx email password role salt now))) :=
          fun he => ⟨he.le, ⟨fun _ => hno, fun _ => he⟩⟩
        refine hrefl ?_
        simp only [Service.step, Service.commit]
        split
        · rename_i hpass
          have hgrant := (requireCanGrant_nonOwner hrole).1 (passes_iff.1 hpass).2
          split
          · rename_i db' htx
            rcases MemberCall.tx_cases htx with ⟨_, _, _, hc, -⟩ | ⟨_, _, hc, -⟩ |
              ⟨_, _, _, _, _, _, hc, -, user, -, -, rfl⟩
            · cases hc
            · cases hc
            · cases hc
              refine Set.ext fun u => ⟨?_, ?_⟩
              · rintro ⟨m, hm, ho⟩
                rcases List.mem_append.1 hm with hm | hm
                · exact ⟨m, hm, ho⟩
                · obtain rfl := List.mem_singleton.1 hm
                  exact absurd ho.2.2 hgrant.2
              · rintro ⟨m, hm, ho⟩
                exact ⟨m, List.mem_append_left _ hm, ho⟩
          · rfl
        · rfl
    · have hno : ¬ s.passes call.ctx call.gate = true := fun hp => hin (passes_iff.1 hp).1
      refine hsame ?_ fun hu => hin hu.1
      simp only [Service.step, if_neg hno]
  | _ => exact hl.elim

/-! ## A sequence of calls -/

/-- The owners of an org are the same after a sequence of calls by members who are not owners iff no
call of it, in the state it finds, is an admin's on another owner of an org that has several. -/
theorem owners_unchanged_iff {s : Service} (hs : Reachable env s) {orgId : Uuid} {ls : List Label}
    (hls : ∀ l ∈ ls, ByNonOwner orgId l) :
    ownersOf orgId (run (Service.step env) s ls).db = ownersOf orgId s.db ↔
      EachStep (Service.step env) (fun s l => ¬ Unseats orgId s l) s ls :=
  (run_eq_iff_eachStep (I := ServiceInv env) (L := ByNonOwner orgId)
    (f := fun s : Service => ownersOf orgId s.db) (fun _ l hi _ => serviceInv_step hi l)
    (fun _ _ hi hl => (ownersOf_step hi hl).1) (fun _ _ hi hl => (ownersOf_step hi hl).2)
    (serviceInv_of_reachable hs) hls).2

/-- Ann signs up, adds Cem as a second owner and Bob as an admin; Bob logs in. -/
def twoOwners : List Label :=
  [.signup "acme" "Acme" "ann" "pw" "salt" 0,
    .member (.addMember ⟨1, 0, .owner, "ann"⟩ "cem" "pw" .owner "salt" 0),
    .member (.addMember ⟨1, 0, .owner, "ann"⟩ "bob" "pw" .admin "salt" 0),
    .login "bob" "pw" none]

/-- The context Bob has. -/
def adminBob : AuthContext := ⟨3, 0, .admin, "bob"⟩

/-- Bob adds a member and promotes them to admin: the owners stay. -/
theorem owners_unchanged_by_grants :
    ownersOf 0 (run (Service.step (asciiEnv id)) (run (Service.step (asciiEnv id)) Service.init twoOwners)
        [.member (.addMember adminBob "dan" "pw" .member "salt" 0),
          .member (.setMemberRole adminBob 4 .admin)]).db =
      ownersOf 0 (run (Service.step (asciiEnv id)) Service.init twoOwners).db := by
  refine (owners_unchanged_iff ⟨twoOwners, rfl⟩ ?_).2 (by decide +kernel)
  simp [ByNonOwner, adminBob, MemberCall.orgId, MemberCall.ctx]

/-- An admin demotes one of two owners. -/
theorem admin_demotes_owner :
    let s := run (Service.step (asciiEnv id)) Service.init twoOwners
    let l := Label.member (.setMemberRole adminBob 2 .member)
    ByNonOwner 0 l ∧ memberRole? adminBob.userId 0 s.db = some .admin ∧
      2 ∈ ownersOf 0 s.db ∧ 2 ∉ ownersOf 0 (Service.step (asciiEnv id) s l).db := by
  refine ⟨⟨rfl, by simp [adminBob, MemberCall.ctx]⟩, ?_⟩
  decide +kernel

end KnowledgeDesk.Proofs
