import KnowledgeDesk.Proofs.OwnershipProofs
import KnowledgeDesk.Proofs.ServiceWritesProofs
import Mathlib.Algebra.Order.Ring.NNRat
import Mathlib.Algebra.Order.Ring.Nat

/-!
# The ledger of an org

The answers of an org are what its spend and its monthly volume are counted from. `answers_step` is the
inversion lemma of the machine for this table: apart from deleting the org, a step keeps the answers,
adds one, changes rows without lowering a cost, or removes those of a member that it removes.
-/

open Table

namespace KnowledgeDesk.Proofs

open Runs Service

variable {env : Env}

/-! ## Steps on the answers -/

/-- The step is a `remove_member` that removes `userId`. -/
def Removes (userId : Uuid) (s : Service) : Label → Prop
  | .member (.removeMember ctx target) => target = userId ∧
      s.passes ctx (removeMemberGate ctx userId) = true ∧ ∃ role ∈ memberRole? userId ctx.orgId s.db,
        ¬ (role = .owner ∧ ownerCount ctx.orgId s.db = 1)
  | _ => False

theorem removes_unique {u v : Uuid} {s : Service} {l : Label} (hu : Removes u s l)
    (hv : Removes v s l) : u = v := by
  cases l with
  | member call =>
    cases call with
    | removeMember ctx target => exact hu.1.symm.trans hv.1
    | _ => exact hu.elim
  | _ => exact hu.elim

/-- A row with the same columns as `a`, but for a cost that may be higher, as far as counting goes. -/
structure Dearer (a a' : Answer) : Prop where
  org : a'.orgId = a.orgId
  created : a'.createdAt = a.createdAt
  cost : a.costUsd ≤ a'.costUsd

/-- What a step may do to the answers. -/
inductive AnswersStep (s : Service) (l : Label) : List Answer → Prop
  | kept : AnswersStep s l s.db.answers
  | asked (a : Answer) : AnswersStep s l (s.db.answers ++ [a])
  | updated (p : Answer → Bool) (f : Answer → Answer) (hf : ∀ a ∈ s.db.answers, p a = true → Dearer a (f a)) :
      AnswersStep s l (updateWhere p f s.db.answers)
  | removed (userId : Uuid) (hr : Removes userId s l) :
      AnswersStep s l (deleteWhere (fun a => a.userId == userId) s.db.answers)

/-- Removing a member removes their answers, since it leaves them without an org. -/
theorem answers_removeMember {n : Nat} {db db' : Db} {u : Unit} {ctx : AuthContext} {userId : Uuid}
    (h : Tenants n db) (htx : removeMemberTx ctx userId db = .ok (u, db')) :
    db'.answers = deleteWhere (fun a => a.userId == userId) db.answers := by
  obtain ⟨target, htarget, -, rfl⟩ := removeMemberTx_ok htx
  obtain ⟨m, hm, rfl, hmo, -⟩ := memberRole?_eq_some htarget
  have hstranded : ∀ u, Stranded [m.userId] (deleteMembership m.userId ctx.orgId db) u ↔ u = m.userId := by
    intro u
    refine ⟨fun hs => List.mem_singleton.1 hs.1, ?_⟩
    rintro rfl
    refine ⟨List.mem_singleton.2 rfl, h.accounts.user m hm, fun m' hm' he => ?_⟩
    obtain ⟨hm', hno⟩ := mem_deleteMembership.1 hm'
    obtain rfl := Table.eq_of_key h.accounts.single hm' hm he
    exact hno ⟨rfl, hmo⟩
  refine deleteWhere_congr fun a _ => ?_
  rw [Bool.eq_iff_iff, gone_iff, hstranded, beq_iff_eq]

/-- Every step but the deletion of an org. -/
theorem answers_step {s : Service} (h : ServiceInv env s) {l : Label} (hl : ∀ ctx, l ≠ .deleteOrg ctx) :
    AnswersStep s l (Service.step env s l).db.answers := by
  have hclose : ∀ {stream : Nat} {ctx : AuthContext} {id : Uuid} {f : Answer → Answer},
      s.asks stream = some (ctx, id) → (∀ a, a.costUsd = 0 → Dearer a (f a)) →
      AnswersStep s l (updateWhere
        (rls ctx.orgId Answer.orgId fun a => a.id == id && a.orgId == ctx.orgId) f s.db.answers) := by
    intro stream ctx id f hask hf
    refine .updated _ f fun a ha hp => hf a ?_
    simp only [rls, Bool.and_eq_true, beq_iff_eq] at hp
    exact ((h.asks stream ctx id hask).2 a ha hp.2.1).2
  cases serviceWrite_step h l with
  | aside _ _ _ answers =>
    rw [answers]
    exact .kept
  | signup orgSlug orgName email password salt now ok =>
    obtain ⟨-, -, -, user, -, -, hdb⟩ := createOrgWithOwner_ok ok
    rw [hdb]
    exact .kept
  | member call pass ok =>
    rcases MemberCall.tx_cases ok with ⟨ctx, userId, role, rfl, htx⟩ | ⟨ctx, userId, rfl, htx⟩ |
      ⟨ctx, email, password, role, salt, now, rfl, -, user, -, -, hdb⟩
    · obtain ⟨-, -, -, hdb⟩ := setMemberRoleTx_ok htx
      rw [hdb]
      exact .kept
    · rw [answers_removeMember h.tenants htx]
      obtain ⟨target, htarget, hguard, -⟩ := removeMemberTx_ok htx
      exact .removed userId ⟨rfl, pass, target, htarget, hguard⟩
    · rw [hdb]
      exact .kept
  | createSession ctx raw now pass ok =>
    obtain ⟨-, -, hdb⟩ := createSession_ok ok
    rw [hdb]
    exact .kept
  | changePassword ctx current new salt keepTokenHash pass ok =>
    obtain ⟨-, hdb⟩ := changePassword_ok ok
    rw [hdb]
    exact .kept
  | sessionsDeleted p cause eq =>
    rw [eq]
    exact .kept
  | deleteOrg ctx ok => exact absurd rfl (hl ctx)
  | ask stream ctx question provider refused now ok =>
    obtain ⟨-, -, a, -, -, -, -, -, -, hdb⟩ := recordAnswerTx_ok ok
    rw [hdb]
    exact .asked a
  | block stream asked ok =>
    rw [← (Prod.mk.inj (Except.ok.inj ok)).2]
    exact hclose asked fun a _ => ⟨rfl, rfl, le_refl _⟩
  | finalize stream usage estimated now asked ok =>
    rw [← (Prod.mk.inj (Except.ok.inj ok)).2]
    refine hclose asked fun a hcost => ⟨rfl, rfl, ?_⟩
    rw [hcost]
    exact zero_le

/-- A member that a step removes takes their answers with them. -/
theorem answers_of_removes {s : Service} (h : ServiceInv env s) {l : Label} {userId : Uuid}
    (hr : Removes userId s l) :
    (Service.step env s l).db.answers = deleteWhere (fun a => a.userId == userId) s.db.answers := by
  cases l with
  | member call =>
    cases call with
    | removeMember ctx target =>
      obtain ⟨rfl, hpass, role, hrole, hguard⟩ := hr
      have htx : removeMemberTx ctx target s.db =
          .ok ((), purgeStrandedUsers [target] (deleteMembership target ctx.orgId s.db)) := by
        rw [Option.mem_def] at hrole
        simp only [removeMemberTx, hrole, if_neg hguard]
      have hgate : s.passes (MemberCall.removeMember ctx target).ctx
          (MemberCall.removeMember ctx target).gate = true := hpass
      simp only [Service.step, if_pos hgate, Service.commit, MemberCall.tx, htx]
      exact answers_removeMember h.tenants htx
    | _ => exact hr.elim
  | _ => exact hr.elim

/-- A sum over the answers, of weights that grow with the cost, is not lowered by a step iff the step
does not remove a member with an answer that weighs something. -/
theorem sum_answers_step {M : Type*} [AddCommMonoid M] [PartialOrder M] [IsOrderedCancelAddMonoid M]
    [CanonicallyOrderedAdd M] {w : Answer → M} (hw : ∀ a a', Dearer a a' → w a ≤ w a') {s : Service}
    (h : ServiceInv env s) {l : Label} (hl : ∀ ctx, l ≠ .deleteOrg ctx) :
    (s.db.answers.map w).sum ≤ ((Service.step env s l).db.answers.map w).sum ↔
      ∀ userId, Removes userId s l → ∀ a ∈ s.db.answers, a.userId = userId → w a = 0 := by
  by_cases hr : ∃ userId, Removes userId s l
  · obtain ⟨userId, hr⟩ := hr
    rw [answers_of_removes h hr, sum_le_sum_deleteWhere_iff]
    simp only [beq_iff_eq]
    refine ⟨fun hz v hv a ha he => hz a ha ?_, fun hz a ha he => hz userId hr a ha he⟩
    rw [he, removes_unique hv hr]
  · refine iff_of_true ?_ fun userId hu => absurd ⟨userId, hu⟩ hr
    have hstep := answers_step h hl
    generalize (Service.step env s l).db.answers = answers at hstep ⊢
    cases hstep with
    | kept => exact le_refl _
    | asked a => simp
    | updated p f hf => exact sum_updateWhere_le fun a ha hp => hw a _ (hf a ha hp)
    | removed userId hu => exact absurd ⟨userId, hu⟩ hr

/-! ## Spend and volume -/

/-- The answer is one that `spend_last_24h` counts with a cost, or `questions_this_month` counts. -/
def Counted (orgId : Uuid) (now : Time) (a : Answer) : Prop :=
  a.orgId = orgId ∧
    (dateTruncMonth now ≤ a.createdAt ∨ (now - seconds 86400 < a.createdAt ∧ a.costUsd ≠ 0))

instance (orgId : Uuid) (now : Time) (a : Answer) : Decidable (Counted orgId now a) :=
  inferInstanceAs (Decidable (_ ∧ (_ ∨ _)))

/-- The step removes a member who has asked something that counts. -/
def Uncounts (orgId : Uuid) (now : Time) (s : Service) (l : Label) : Prop :=
  ∃ userId, Removes userId s l ∧ ∃ a ∈ s.db.answers, a.userId = userId ∧ Counted orgId now a

theorem spendSince_step_iff {s : Service} (h : ServiceInv env s) {l : Label}
    (hl : ∀ ctx, l ≠ .deleteOrg ctx) (orgId : Uuid) (now : Time) :
    spendSince orgId now s.db ≤ spendSince orgId now (Service.step env s l).db ↔
      ∀ userId, Removes userId s l → ∀ a ∈ s.db.answers, a.userId = userId →
        ¬ (a.orgId = orgId ∧ now - seconds 86400 < a.createdAt ∧ a.costUsd ≠ 0) := by
  simp only [spendSince, sum_map_filter]
  rw [sum_answers_step (fun a a' hd => ?_) h hl]
  · refine forall₂_congr fun userId _ => forall₃_congr fun a _ _ => ?_
    simp only [rls, Bool.and_eq_true, beq_iff_eq, decide_eq_true_eq, ite_eq_right_iff]
    tauto
  · have hkeep : (rls orgId Answer.orgId fun a => a.orgId == orgId && now - seconds 86400 < a.createdAt) a' =
        rls orgId Answer.orgId (fun a => a.orgId == orgId && now - seconds 86400 < a.createdAt) a := by
      simp only [rls, hd.org, hd.created]
    rw [hkeep]
    split
    · exact hd.cost
    · exact le_refl _

theorem monthAnswers_step_iff {s : Service} (h : ServiceInv env s) {l : Label}
    (hl : ∀ ctx, l ≠ .deleteOrg ctx) (orgId : Uuid) (now : Time) :
    (monthAnswers orgId now s.db).length ≤ (monthAnswers orgId now (Service.step env s l).db).length ↔
      ∀ userId, Removes userId s l → ∀ a ∈ s.db.answers, a.userId = userId →
        ¬ (a.orgId = orgId ∧ dateTruncMonth now ≤ a.createdAt) := by
  have hlength : ∀ db, (monthAnswers orgId now db).length =
      (db.answers.map fun a => if rls orgId Answer.orgId
        (fun a => a.orgId == orgId && dateTruncMonth now ≤ a.createdAt) a then 1 else 0).sum := by
    intro db
    rw [← sum_map_filter (w := fun _ => 1)]
    simp [monthAnswers]
  rw [hlength, hlength, sum_answers_step (fun a a' hd => ?_) h hl]
  · refine forall₂_congr fun userId _ => forall₃_congr fun a _ _ => ?_
    simp [rls]
  · simp only [rls, hd.org, hd.created]
    exact le_refl _

/-- A step that does not delete an org leaves what `spend_last_24h` and `questions_this_month` return,
at a fixed clock, no smaller than before, iff it does not remove a member who has asked something that
counts. -/
theorem spend_stands_iff {s : Service} (hs : Reachable env s) {l : Label}
    (hl : ∀ ctx, l ≠ .deleteOrg ctx) (orgId : Uuid) (now : Time) :
    (spendSince orgId now s.db ≤ spendSince orgId now (Service.step env s l).db ∧
      (monthAnswers orgId now s.db).length ≤ (monthAnswers orgId now (Service.step env s l).db).length) ↔
      ¬ Uncounts orgId now s l := by
  have h := serviceInv_of_reachable hs
  rw [spendSince_step_iff h hl, monthAnswers_step_iff h hl]
  constructor
  · rintro ⟨hspend, hmonth⟩ ⟨userId, hr, a, ha, he, horg, hm | hc⟩
    · exact hmonth userId hr a ha he ⟨horg, hm⟩
    · exact hspend userId hr a ha he ⟨horg, hc⟩
  · intro hno
    exact ⟨fun userId hr a ha he hc => hno ⟨userId, hr, a, ha, he, hc.1, .inr hc.2⟩,
      fun userId hr a ha he hc => hno ⟨userId, hr, a, ha, he, hc.1, .inl hc.2⟩⟩

/-- Ann signs up and adds Bob, who logs in and asks a question at `askedAt` that costs a dollar. -/
def bobHasAsked (askedAt : Time) : List Label :=
  [.signup "acme" "Acme" "ann" "pw" "salt" 0,
    .member (.addMember ⟨1, 0, .owner, "ann"⟩ "bob" "pw" .member "salt" 0),
    .login "bob" "pw" none,
    .ask 0 ⟨2, 0, .member, "bob"⟩ "why?" "claude-sonnet-5" false askedAt,
    .finalize 0 ⟨1000, 100, 1⟩ false askedAt]

/-- Ann removes Bob. -/
def removeBob : Label := .member (.removeMember ⟨1, 0, .owner, "ann"⟩ 2)

/-- Bob's question is forty days old when he is removed: nothing that counts goes with him. -/
theorem spend_stands_without_recent_answers :
    let s := run (Service.step (asciiEnv id)) Service.init (bobHasAsked 0)
    let now := seconds (40 * 86400)
    spendSince 0 now s.db ≤ spendSince 0 now (Service.step (asciiEnv id) s removeBob).db ∧
      (monthAnswers 0 now s.db).length ≤
        (monthAnswers 0 now (Service.step (asciiEnv id) s removeBob).db).length := by
  refine (spend_stands_iff ⟨bobHasAsked 0, rfl⟩ (by simp [removeBob]) 0 _).2 ?_
  rintro ⟨userId, -, a, ha, -, hc⟩
  have hnone : ∀ a ∈ (run (Service.step (asciiEnv id)) Service.init (bobHasAsked 0)).db.answers,
      ¬ Counted 0 (seconds (40 * 86400)) a := by decide +kernel
  exact hnone a ha hc

/-- Bob's question is a minute old when he is removed: the dollar and the question are uncounted. -/
theorem removal_uncounts_spend :
    let s := run (Service.step (asciiEnv id)) Service.init (bobHasAsked 0)
    let s' := Service.step (asciiEnv id) s removeBob
    let now := seconds 60
    spendSince 0 now s'.db < spendSince 0 now s.db ∧
      (monthAnswers 0 now s'.db).length < (monthAnswers 0 now s.db).length := by
  decide +kernel

end KnowledgeDesk.Proofs
