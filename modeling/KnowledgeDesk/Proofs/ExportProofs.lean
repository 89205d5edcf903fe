import KnowledgeDesk.Export
import KnowledgeDesk.Proofs.ServiceWritesProofs
import Mathlib.Data.String.Basic

/-!
# What the export lists

The members' column is unique, so every order of them is the same and the pages make up the listing. Paths
are unique for a source only: documents of several sources can share one, and where they stand on two pages
the answers may list one of them twice and another not at all.
-/

open Table Paging

namespace KnowledgeDesk.Proofs

variable {env : Env} {ctx : AuthContext} {size : Nat} {db : Db}

/-- The order of a deterministic collation: strings it does not tell apart are the same. -/
structure Collation (le : String → String → Bool) : Prop where
  order : TotalPreorder le
  antisymm : ∀ a b, le a b = true → le b a = true → a = b

theorem collation_codePointLe : Collation codePointLe := by
  have hle : ∀ a b : String, codePointLe a b = true ↔ a ≤ b := by
    intro a b
    rw [codePointLe, Bool.not_eq_true', decide_eq_false_iff_not, not_lt]
  refine ⟨⟨fun a b c hab hbc => ?_, fun a b => ?_⟩, fun a b hab hba => ?_⟩
  · exact (hle a c).2 (((hle a b).1 hab).trans ((hle b c).1 hbc))
  · rw [Bool.or_eq_true, hle, hle]
    exact le_total a b
  · exact le_antisymm ((hle a b).1 hab) ((hle b a).1 hba)

theorem totalPreorder_byEmail (h : Collation env.collate) : TotalPreorder (byEmail env) :=
  ⟨fun _ _ _ => h.order.trans _ _ _, fun _ _ => h.order.total _ _⟩

theorem totalPreorder_byPath (h : Collation env.collate) : TotalPreorder (byPath env) :=
  ⟨fun _ _ _ => h.order.trans _ _ _, fun _ _ => h.order.total _ _⟩

/-! ## Emails are unique -/

/-- A new email is not there yet, a change of password changes none, and rows go. -/
theorem emails_step {s : Service} (hinv : ServiceInv env s) (h : (s.db.users.map User.email).Nodup)
    (l : Service.Label) : ((Service.step env s l).db.users.map User.email).Nodup := by
  have hnew : ∀ user : User, (∀ u ∈ s.db.users, u.email ≠ user.email) →
      ((s.db.users ++ [user]).map User.email).Nodup := by
    intro user hne
    rw [List.map_append, List.map_singleton, List.nodup_append]
    refine ⟨h, List.nodup_singleton _, fun a ha b hb => ?_⟩
    obtain ⟨u, hu, rfl⟩ := List.mem_map.1 ha
    rw [List.mem_singleton.1 hb]
    exact hne u hu
  generalize hdb : (Service.step env s l).db = db'
  have hwrite := serviceWrite_step hinv l
  rw [hdb] at hwrite
  cases hwrite with
  | aside users => exact users ▸ h
  | signup orgSlug orgName email password salt now ok =>
    obtain ⟨-, -, -, hne, rfl⟩ := createOrgWithOwner_inserted ok
    exact hnew _ hne
  | member call pass ok =>
    cases call with
    | addMember ctx email password role salt now =>
      obtain ⟨id, hadd⟩ := map_snd_ok.1 ok
      obtain ⟨-, -, hne, rfl⟩ := addMember_inserted hadd
      exact hnew _ hne
    | setMemberRole ctx userId role =>
      obtain ⟨target, -, -, rfl⟩ := setMemberRoleTx_ok ok
      exact h
    | removeMember ctx userId =>
      obtain ⟨target, -, -, rfl⟩ := removeMemberTx_ok ok
      exact h.sublist (sublist_deleteWhere.map _)
  | createSession ctx raw now pass ok =>
    obtain ⟨-, -, rfl⟩ := createSession_ok ok
    exact h
  | changePassword ctx current new salt keepTokenHash pass ok =>
    obtain ⟨-, rfl⟩ := changePassword_ok ok
    have hsame : (updateWhere (fun u => u.id == ctx.userId)
        (fun u => { u with passwordHash := env.hashPassword new salt }) s.db.users).map User.email =
          s.db.users.map User.email := map_updateWhere User.email fun _ => rfl
    exact hsame ▸ h
  | sessionsDeleted p cause eq => exact eq ▸ h
  | deleteOrg ctx ok =>
    rw [deleteOrg_ok ok]
    exact h.sublist (sublist_deleteWhere.map _)
  | ask stream ctx question provider refused now ok =>
    obtain ⟨-, -, a, -, -, -, -, -, -, rfl⟩ := recordAnswerTx_ok ok
    exact h
  | block stream asked ok =>
    obtain rfl := (Prod.mk.inj (Except.ok.inj ok)).2
    exact h
  | finalize stream usage estimated now asked ok =>
    obtain rfl := (Prod.mk.inj (Except.ok.inj ok)).2
    exact h

theorem emails_nodup {s : Service} (h : Service.Reachable env s) : (s.db.users.map User.email).Nodup := by
  obtain ⟨ls, rfl⟩ := h
  exact (Runs.run_inv (P := fun s => ServiceInv env s ∧ (s.db.users.map User.email).Nodup)
    (fun s l hs => ⟨serviceInv_step hs.1 l, emails_step hs.1 hs.2 l⟩) ⟨serviceInv_init, List.nodup_nil⟩ ls).2

/-! ## The rows of the listings -/

theorem length_memberRows_le (ctx : AuthContext) (db : Db) :
    (memberRows ctx db).length ≤ (db.memberships.filter fun m => m.orgId == ctx.orgId).length :=
  List.length_filterMap_le _ _

theorem length_documentRows (ctx : AuthContext) (db : Db) :
    (documentRows ctx db).length =
      (db.documents.filter (rls ctx.orgId Document.orgId fun d => d.orgId == ctx.orgId)).length :=
  List.length_map _

/-- Every membership of the org is a row, since its user is there. -/
theorem memberRows_ids {n : Nat} (h : MembersInv n db) :
    (memberRows ctx db).map MemberRow.id =
      (db.memberships.filter fun m => m.orgId == ctx.orgId).map Membership.userId := by
  rw [memberRows, List.map_filterMap, ← List.filterMap_eq_map]
  refine List.filterMap_congr fun m hm => ?_
  obtain ⟨u, hu⟩ := Option.isSome_iff_exists.1 (List.find?_isSome.2
    (List.any_eq_true.1 (h.user m (List.mem_filter.1 hm).1)))
  have hid := List.find?_some hu
  rw [hu]
  simpa using hid

theorem documentRows_ids (ctx : AuthContext) (db : Db) :
    (documentRows ctx db).map DocumentRow.id =
      (db.documents.filter fun d => d.orgId == ctx.orgId).map Document.id := by
  rw [documentRows, List.map_map]
  refine congrArg _ (List.filter_congr fun d _ => ?_)
  rw [rls, Bool.and_self]

/-- Members of one org have emails of their own. -/
theorem memberRows_email {n : Nat} (h : MembersInv n db) (hemails : (db.users.map User.email).Nodup)
    {a b : MemberRow} (ha : a ∈ memberRows ctx db) (hb : b ∈ memberRows ctx db) (he : a.email = b.email) :
    a = b := by
  obtain ⟨m, hm, ha⟩ := List.mem_filterMap.1 ha
  obtain ⟨m', hm', hb⟩ := List.mem_filterMap.1 hb
  obtain ⟨u, hu, rfl⟩ := Option.map_eq_some_iff.1 ha
  obtain ⟨u', hu', rfl⟩ := Option.map_eq_some_iff.1 hb
  obtain rfl : u = u' :=
    Table.eq_of_key hemails (List.mem_of_find?_eq_some hu) (List.mem_of_find?_eq_some hu') he
  obtain ⟨hm, horg⟩ := List.mem_filter.1 hm
  obtain ⟨hm', horg'⟩ := List.mem_filter.1 hm'
  have hid := List.find?_some hu
  have hid' := List.find?_some hu'
  rw [beq_iff_eq] at hid hid' horg horg'
  obtain rfl : m = m' :=
    Table.eq_of_key h.keys hm hm' (by rw [← hid, ← hid', horg, horg'])
  rfl

/-! ## The sweeps over a database at rest -/

theorem gate_passes {g : Except Err Unit} (h : g = .ok ()) (db : Db) : gate g db = (.ok (), db) := by
  rw [h]
  rfl

theorem sweepPages_apply {α : Type} {fetch : Nat → Nat → Nat → Scope (List α)} {listing : Nat → List α}
    (h : ∀ query limit offset, fetch query limit offset db = (.ok (page limit offset (listing query)), db))
    (fuel query : Nat) (rows : List α) :
    sweepPages size fetch fuel query rows db = (.ok (Paging.sweep size listing fuel query rows), db) := by
  induction fuel generalizing query rows with
  | zero => rfl
  | succ fuel ih =>
    rw [sweepPages, Proc.bind_of_ok (h query size rows.length), Paging.sweep]
    by_cases hshort : (page size rows.length (listing query)).length < size
    · rw [if_pos hshort, if_pos hshort]
      rfl
    · rw [if_neg hshort, if_neg hshort, ih]

/-- The export ends, with the pages of its queries. -/
theorem exportPages_apply (hadmin : requireRole ctx .admin = .ok ()) (hsize : 0 < size) {orders : RowOrders}
    (h : orders.Lawful env) (db : Db) :
    exportPages ctx size orders db =
      (.ok (some {
        members := pages size (fun query => orders.members query (memberRows ctx db))
          (memberRows ctx db).length
        documents := pages size (fun query => orders.documents query (documentRows ctx db))
          (documentRows ctx db).length }), db) := by
  have hmembers := length_memberRows_le ctx db
  have hdocuments := length_documentRows ctx db
  have hsweepM := @sweepPages_apply size db MemberRow
    (fun query => listMembersIn ctx (orders.members query)) _ (fun _ _ _ => rfl)
    ((db.memberships.filter fun m => m.orgId == ctx.orgId).length + 1) 0 []
  have hsweepD := @sweepPages_apply size db DocumentRow
    (fun query => listDocumentsIn ctx (orders.documents query)) _ (fun _ _ _ => rfl)
    ((db.documents.filter (rls ctx.orgId Document.orgId fun d => d.orgId == ctx.orgId)).length + 1) 0 []
  have hlengthM := fun query => (h.members query (memberRows ctx db)).1.length_eq
  have hlengthD := fun query => (h.documents query (documentRows ctx db)).1.length_eq
  rw [sweep_from_start hsize hlengthM (by omega)] at hsweepM
  rw [sweep_from_start hsize hlengthD (by omega)] at hsweepD
  rw [exportPages, Proc.bind_of_ok (gate_passes hadmin db), Proc.bind_of_ok (show countMembers ctx db = _ from rfl),
    Proc.bind_of_ok hsweepM, Proc.bind_of_ok (show countDocuments ctx db = _ from rfl), Proc.bind_of_ok hsweepD]
  rfl

/-- A sweep of one listing is `_sweep` over it. -/
theorem sweep_apply {α : Type} {fetch : Nat → Nat → Scope (List α)} {listing : List α}
    (h : ∀ limit offset, fetch limit offset db = (.ok (page limit offset listing), db)) {fuel query : Nat}
    {rows out : List α} (hout : Paging.sweep SWEEP_PAGE (fun _ => listing) fuel query rows = some out) :
    KnowledgeDesk.sweep fetch fuel rows db = (.ok out, db) := by
  induction fuel generalizing query rows with
  | zero => cases hout
  | succ fuel ih =>
    rw [Paging.sweep] at hout
    rw [KnowledgeDesk.sweep, Proc.bind_of_ok (h SWEEP_PAGE rows.length)]
    by_cases hshort : (page SWEEP_PAGE rows.length listing).length < SWEEP_PAGE
    · rw [if_pos hshort] at hout ⊢
      rw [← Option.some.inj hout]
      rfl
    · rw [if_neg hshort] at hout ⊢
      exact ih hout

theorem stableOrders_lawful (h : Collation env.collate) : (stableOrders env).Lawful env := by
  have horder : ∀ {α : Type} {le : α → α → Bool}, TotalPreorder le →
      ∀ rows, Listing le rows (orderBy le rows) := by
    intro α le hle rows
    have htrans : IsTrans α fun a b => le a b = true := ⟨hle.trans⟩
    have htotal : Std.Total fun a b => le a b = true := ⟨fun a b => by simpa using hle.total a b⟩
    exact ⟨List.perm_insertionSort _ rows, List.pairwise_insertionSort _ rows⟩
  exact ⟨fun _ => horder (totalPreorder_byEmail h), fun _ => horder (totalPreorder_byPath h)⟩

/-- The export of a database that sorts stably is the one of these. -/
theorem exportOrg_eq (hcollate : Collation env.collate) (hadmin : requireRole ctx .admin = .ok ()) (db : Db) :
    ∃ e, exportPages ctx SWEEP_PAGE (stableOrders env) db = (.ok (some e), db) ∧
      exportOrg env ctx db = (.ok e, db) := by
  have hsize : 0 < SWEEP_PAGE := by decide
  have hlawful := stableOrders_lawful hcollate
  refine ⟨_, exportPages_apply hadmin hsize hlawful db, ?_⟩
  have hmembers := length_memberRows_le ctx db
  have hdocuments := length_documentRows ctx db
  have hsweepM := @sweep_apply db MemberRow (fun limit offset => listMembers env ctx limit offset) _
    (fun _ _ => rfl) _ 0 [] _ (sweep_from_start hsize
      (fun query => (hlawful.members query (memberRows ctx db)).1.length_eq) (Nat.lt_succ_of_le hmembers))
  have hsweepD := @sweep_apply db DocumentRow (fun limit offset => listDocuments env ctx limit offset) _
    (fun _ _ => rfl) _ 0 [] _ (sweep_from_start hsize
      (fun query => (hlawful.documents query (documentRows ctx db)).1.length_eq)
      (Nat.lt_succ_of_le (le_of_eq hdocuments)))
  rw [exportOrg, Proc.bind_of_ok (gate_passes hadmin db), Proc.bind_of_ok (show countMembers ctx db = _ from rfl),
    Proc.bind_of_ok hsweepM, Proc.bind_of_ok (show countDocuments ctx db = _ from rfl), Proc.bind_of_ok hsweepD]
  rfl

/-! ## Completeness -/

/-- Whatever the orders of its queries, the export ends and lists every membership and every document of the
org once. -/
def ExportsAll (env : Env) (ctx : AuthContext) (size : Nat) (db : Db) : Prop :=
  ∀ orders : RowOrders, orders.Lawful env → ∃ e, exportPages ctx size orders db = (.ok (some e), db) ∧
    (e.members.map MemberRow.id).Perm
      ((db.memberships.filter fun m => m.orgId == ctx.orgId).map Membership.userId) ∧
    (e.documents.map DocumentRow.id).Perm
    ((db.documents.filter fun d => d.orgId == ctx.orgId).map Document.id)

/-- In the order of the paths, the documents of one path stand on one page. -/
def PathsOnOnePage (env : Env) (ctx : AuthContext) (size : Nat) (db : Db) : Prop :=
  Fits (byPath env) size (documentRows ctx db)

instance : Decidable (PathsOnOnePage env ctx size db) :=
  inferInstanceAs (Decidable (Fits (byPath env) size (documentRows ctx db)))

/-- The members' pages never depend on the queries' orders. -/
theorem fits_memberRows (hcollate : Collation env.collate) {n : Nat} (h : MembersInv n db)
    (hemails : (db.users.map User.email).Nodup) : Fits (byEmail env) size (memberRows ctx db) := by
  have hids : ((memberRows ctx db).map MemberRow.id).Nodup := by
    rw [memberRows_ids h]
    refine List.Nodup.of_map (fun u => (u, ctx.orgId)) ?_
    rw [List.map_map]
    have hkeys := h.keys.sublist ((List.filter_sublist (p := fun m => m.orgId == ctx.orgId)).map _)
    rwa [List.map_congr_left fun m hm => ?_] at hkeys
    rw [Function.comp, ← beq_iff_eq.1 (List.mem_filter.1 hm).2]
  refine fits_of_antisymm (totalPreorder_byEmail hcollate) (List.Nodup.of_map _ hids) ?_
  intro a ha b hb hab hba
  exact memberRows_email h hemails ha hb (hcollate.antisymm _ _ hab hba)

/-- Documents of one path on two pages can be listed twice. -/
theorem not_exportsAll (hcollate : Collation env.collate) {n : Uuid} (hdocs : DocsInv n db)
    (hadmin : requireRole ctx .admin = .ok ()) (hsize : 0 < size) (h : ¬ PathsOnOnePage env ctx size db) :
    ¬ ExportsAll env ctx size db := by
  classical
  intro hall
  have hpaths := totalPreorder_byPath hcollate
  have hstable := stableOrders_lawful hcollate
  obtain ⟨listing, hlisting, hrepeats⟩ := exists_repeating hpaths hsize h
  let orders : RowOrders :=
    { members := (stableOrders env).members
      documents := fun query rows =>
        if rows = documentRows ctx db then listing query else (stableOrders env).documents query rows }
  have hdocuments : ∀ query, orders.documents query (documentRows ctx db) = listing query :=
    fun query => if_pos rfl
  have hlawful : orders.Lawful env := by
    refine ⟨hstable.members, fun query rows => ?_⟩
    by_cases hrows : rows = documentRows ctx db
    · subst hrows
      rw [hdocuments]
      exact hlisting query
    · show Listing _ rows (if rows = documentRows ctx db then listing query else _)
      rw [if_neg hrows]
      exact hstable.documents query rows
  obtain ⟨e, he, -, hids⟩ := hall orders hlawful
  rw [exportPages_apply hadmin hsize hlawful] at he
  obtain rfl := Option.some.inj (Except.ok.inj (congrArg Prod.fst he))
  simp only [hdocuments] at hids
  refine hrepeats (List.Nodup.of_map DocumentRow.id (hids.symm.nodup ?_))
  exact hdocs.ids.sublist (List.filter_sublist.map _)

/-- The export is complete and repeats nothing, whatever order its queries answer in, exactly where the
documents of one path stand on one page. -/
theorem export_complete_iff (hcollate : Collation env.collate) {s : Service}
    (hreach : Service.Reachable env s)
    (hadmin : requireRole ctx .admin = .ok ()) (hsize : 0 < size) :
    ExportsAll env ctx size s.db ↔ PathsOnOnePage env ctx size s.db := by
  have hinv := serviceInv_of_reachable hreach
  refine ⟨fun hall => ?_, fun hfits orders hlawful => ?_⟩
  · by_contra hnot
    exact not_exportsAll hcollate hinv.pipeline.docs hadmin hsize hnot hall
  · refine ⟨_, exportPages_apply hadmin hsize hlawful s.db, ?_, ?_⟩
    · rw [← memberRows_ids hinv.tenants.accounts.toMembersInv]
      have hlisting := fun query => hlawful.members query (memberRows ctx s.db)
      have honce : Fits (byEmail env) size (memberRows ctx s.db) :=
        fits_memberRows hcollate hinv.tenants.accounts.toMembersInv (emails_nodup hreach)
      exact (pages_perm (totalPreorder_byEmail hcollate) hsize honce hlisting).map _
    · rw [← documentRows_ids]
      have hlisting := fun query => hlawful.documents query (documentRows ctx s.db)
      exact (pages_perm (totalPreorder_byPath hcollate) hsize hfits hlisting).map _

/-- Ann fills two sources, with a readme each. -/
def annsReadmes : List Service.Label :=
  let ann : AuthContext := ⟨1, 0, .owner, "ann"⟩
  [.signup "acme" "Acme" "ann" "pw" "salt" 0,
    .syncSource 0 ann "upload" [⟨"README.md", "a", none⟩] 0,
    .syncSource 1 ann "wiki" [⟨"README.md", "b", none⟩] 0]

/-- Pages of two hold both. -/
theorem two_readmes_on_a_page :
    ExportsAll (asciiEnv id) ⟨1, 0, .owner, "ann"⟩ 2
      (Runs.run (Service.step (asciiEnv id)) Service.init annsReadmes).db :=
  (export_complete_iff collation_codePointLe ⟨annsReadmes, rfl⟩ (by decide) (by decide)).2 (by decide +kernel)

/-- On pages of one the export can list one of them twice and the other not at all. -/
theorem two_readmes_on_two_pages :
    let s := Runs.run (Service.step (asciiEnv id)) Service.init annsReadmes
    Service.Reachable (asciiEnv id) s ∧ s.db.documents.length = 2 ∧
      ¬ ExportsAll (asciiEnv id) ⟨1, 0, .owner, "ann"⟩ 1 s.db := by
  intro s
  have hs : Service.Reachable (asciiEnv id) s := ⟨annsReadmes, rfl⟩
  have hdocs := (serviceInv_of_reachable hs).pipeline.docs
  refine ⟨hs, by decide +kernel, ?_⟩
  exact not_exportsAll collation_codePointLe hdocs (by decide) (by decide) (by decide +kernel)

end KnowledgeDesk.Proofs
