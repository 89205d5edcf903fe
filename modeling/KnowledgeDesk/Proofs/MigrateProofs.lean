import KnowledgeDesk.Migrate

/-!
# A run of the migrations is one transaction

`_applied` opens a transaction that nothing ends before the loop, so the blocks of the files are savepoints in
it: a file that fails takes every file of its run with it. From a connection at rest the loop would commit
them one by one.
-/

open Connection Table

namespace KnowledgeDesk.Proofs

variable {σ : Type}

/-- The files not recorded. -/
def unrecorded (done : List String) (ms : List (Migration σ)) : List (Migration σ) :=
  ms.filter fun m => !done.contains m.version

/-- What the SQL of the files does to the schema, one after the other. -/
def runAll (ms : List (Migration σ)) (schema : σ) : Except String σ := ms.foldlM
    (fun s m => m.sqlText s) schema

/-- One file, and its record. -/
def fileTx (m : Migration σ) : SqlStmt σ Unit := fun s => m.stmt s >>= fun r => insertVersion m.version r.2

/-- Files that are pending. -/
def filesTx : List (Migration σ) → List String → SqlStmt σ (List String)
  | [], appliedNow => fun s => .ok (appliedNow, s)
  | m :: ms, appliedNow => fun s => fileTx m s >>= fun r => filesTx ms (appliedNow ++ [m.version]) r.2

theorem filesTx_cons (m : Migration σ) (ms : List (Migration σ)) (appliedNow : List String) (s : Server σ) :
    filesTx (m :: ms) appliedNow s = fileTx m s >>= fun r => filesTx ms (appliedNow ++ [m.version]) r.2 := rfl

theorem acts_block (m : Migration σ) : Acts (do
    executeSql m.stmt
    executeSql (insertVersion m.version)) (fileTx m) :=
  .bind (acts_execute _ _) fun _ => acts_execute _ _

theorem acts_applyFile (m : Migration σ) : Acts (applyFile m) (fileTx m) := .transaction _ (acts_block m)

/-- In a transaction the loop is a part of it. -/
theorem acts_applyFiles (done : List String) (ms : List (Migration σ)) (appliedNow : List String) :
    Acts (applyFiles done ms appliedNow) (filesTx (unrecorded done ms) appliedNow) := by
  induction ms generalizing appliedNow with
  | nil => exact acts_pure appliedNow
  | cons m ms ih =>
    rw [applyFiles, unrecorded, List.filter_cons, ← unrecorded]
    by_cases hdone : done.contains m.version = true
    · rw [if_pos hdone, if_neg (by simpa using hdone)]
      exact ih appliedNow
    · rw [if_neg hdone, if_pos (by simpa using hdone)]
      exact (acts_applyFile m).bind fun _ => ih _

/-! ## The whole run -/

/-- What a run has committed before its loop: the app role, and the table. -/
def prepared (settings : MigrateSettings) (s : Server σ) : Server σ :=
  { s with
    roles := if settings.appUsername = "" ∨ settings.appUsername = settings.ownerUsername then s.roles
      else s.roles.set settings.appUsername settings.appPassword
    schemaMigrations := some s.recorded }

@[simp] theorem recorded_prepared (settings : MigrateSettings) (s : Server σ) :
    (prepared settings s).recorded = s.recorded := rfl

theorem ensureAppRole_apply (settings : MigrateSettings) (s : Server σ) :
    ∃ role, ensureAppRole settings s = (.ok role, { s with roles := (prepared settings s).roles }) := by
  unfold ensureAppRole
  by_cases hnone : settings.appUsername = "" ∨ settings.appUsername = settings.ownerUsername
  · refine ⟨none, ?_⟩
    simp only [prepared, if_pos hnone]
    rfl
  · refine ⟨some settings.appUsername, ?_⟩
    simp only [prepared, if_neg hnone]
    cases hthere : (s.roles.get? settings.appUsername).isSome with
    | true =>
      simp [Proc.bind_apply, withConnection, executeSql, execute, view, roleExists, alterRole, hthere, commit,
        finished]
    | false =>
      simp [Proc.bind_apply, withConnection, executeSql, execute, view, roleExists, createRole, hthere, commit,
        finished]

/-- A run is one transaction: a file that fails takes all of it back. -/
theorem applyPending_eq (settings : MigrateSettings) (dir : MigrationsDir σ) (s : Server σ) :
    applyPending settings dir s =
      match filesTx (unrecorded s.recorded dir.files) [] (prepared settings s) with
      | .ok (versions, s') => (.ok versions, s')
      | .error e => (.error e, prepared settings s) := by
  obtain ⟨role, hrole⟩ := ensureAppRole_apply settings s
  rw [applyPending, Proc.bind_of_ok hrole, ensureTable]
  simp only [executeSql, Proc.bind_assoc]
  have htable : createTable { s with roles := (prepared settings s).roles } =
      .ok ((), prepared settings s) := rfl
  rw [withConnection_commit htable, applied, executeSql]
  have hselect : selectVersions (prepared settings s) = .ok (s.recorded, prepared settings s) := rfl
  have hrun := @withConnection_execute _ _ _ _ SqlError.inFailedSqlTransaction _ _ _ _ hselect
    (fun done => applyFiles done dir.files []) _ (acts_applyFiles s.recorded dir.files [])
  rw [hrun]
  cases filesTx (unrecorded s.recorded dir.files) [] (prepared settings s) with
  | ok r => rfl
  | error e => rfl

/-! ## The files of a run -/

theorem fileTx_ok {m : Migration σ} {s : Server σ} {schema : σ} {versions : List String}
    (hv : s.schemaMigrations = some versions) (hnew : m.version ∉ versions)
    (hsql : m.sqlText s.schema = .ok schema) :
    fileTx m s = .ok ((), { s with schemaMigrations := some (versions ++ [m.version]), schema }) := by
  have hnew' : ¬ versions.contains m.version = true := by simpa using hnew
  rw [fileTx, Migration.stmt, hsql]
  show insertVersion m.version { s with schema } = _
  rw [insertVersion]
  simp only [hv, if_neg hnew']

theorem runAll_cons {m : Migration σ} {ms : List (Migration σ)} {schema final : σ} :
    runAll (m :: ms) schema = .ok final ↔
      ∃ schema₁, m.sqlText schema = .ok schema₁ ∧ runAll ms schema₁ = .ok final := by
  rw [runAll, List.foldlM_cons]
  cases hsql : m.sqlText schema with
  | error message =>
    refine ⟨fun h => ?_, fun ⟨_, h, _⟩ => ?_⟩
    · cases h
    · cases h
  | ok schema₁ =>
    refine ⟨fun h => ⟨schema₁, rfl, h⟩, ?_⟩
    rintro ⟨schema₂, h, hran⟩
    obtain rfl := Except.ok.inj h
    exact hran

/-- Files of different names, none of them recorded. -/
def Fresh (versions : List String) (ms : List (Migration σ)) : Prop :=
  (ms.map Migration.version).Nodup ∧ ∀ m ∈ ms, m.version ∉ versions

theorem Fresh.tail {versions : List String} {m : Migration σ} {ms : List (Migration σ)}
    (h : Fresh versions (m :: ms)) : m.version ∉ versions ∧ Fresh (versions ++ [m.version]) ms := by
  obtain ⟨hnodup, hnew⟩ := h
  rw [List.map_cons, List.nodup_cons] at hnodup
  refine ⟨hnew m List.mem_cons_self, hnodup.2, fun x hx hmem => ?_⟩
  rcases List.mem_append.1 hmem with hmem | hmem
  · exact hnew x (List.mem_cons_of_mem m hx) hmem
  · exact hnodup.1 (List.mem_singleton.1 hmem ▸ List.mem_map_of_mem hx)

theorem Fresh.left {versions : List String} {ms ms' : List (Migration σ)} (h : Fresh versions (ms ++ ms')) :
    Fresh versions ms := by
  obtain ⟨hnodup, hnew⟩ := h
  rw [List.map_append] at hnodup
  exact ⟨(List.nodup_append.1 hnodup).1, fun m hm => hnew m (List.mem_append_left _ hm)⟩

/-- Files that succeed are applied and recorded in turn. -/
theorem filesTx_append {before rest : List (Migration σ)} {appliedNow versions : List String} {s : Server σ}
    {schema : σ} (hv : s.schemaMigrations = some versions) (hran : runAll before s.schema = .ok schema)
    (hfresh : Fresh versions before) :
    filesTx (before ++ rest) appliedNow s = filesTx rest (appliedNow ++ before.map Migration.version)
      { s with schemaMigrations := some (versions ++ before.map Migration.version), schema } := by
  induction before generalizing appliedNow versions s with
  | nil =>
    obtain rfl := Except.ok.inj hran
    simp [← hv]
  | cons m ms ih =>
    obtain ⟨schema₁, hsql, hran⟩ := runAll_cons.1 hran
    obtain ⟨hnew, hfresh⟩ := hfresh.tail
    have hrest := @ih (appliedNow ++ [m.version]) (versions ++ [m.version])
      { s with schemaMigrations := some (versions ++ [m.version]), schema := schema₁ } rfl hran hfresh
    rw [List.cons_append, filesTx_cons, fileTx_ok hv hnew hsql]
    simp only [List.append_assoc, List.singleton_append] at hrest
    exact hrest

theorem fileTx_fails {failing : Migration σ} {s : Server σ} {message : String}
    (hsql : failing.sqlText s.schema = .error message) : fileTx failing s = .error (.failed message) := by
  have hstmt : failing.stmt s = .error (.failed message) := by simp only [Migration.stmt, hsql]
  simp only [fileTx, hstmt]
  rfl

theorem filesTx_fails {failing : Migration σ} {after : List (Migration σ)} {appliedNow : List String}
    {s : Server σ}
    {message : String} (hsql : failing.sqlText s.schema = .error message) :
    filesTx (failing :: after) appliedNow s = .error (.failed message) := by
  rw [filesTx_cons, fileTx_fails hsql]
  rfl

theorem applyFile_idle_ok {m : Migration σ} {s s' : Server σ} (h : fileTx m s = .ok ((), s')) :
    applyFile m ⟨s, .idle⟩ = (.ok (), ⟨s', .idle⟩) := by
  have hblock := transaction_idle SqlError.inFailedSqlTransaction (acts_block m) s
  rw [h] at hblock
  exact hblock

theorem applyFile_idle_error {m : Migration σ} {s : Server σ} {e : SqlError} (h : fileTx m s = .error e) :
    applyFile m ⟨s, .idle⟩ = (.error e, ⟨s, .idle⟩) := by
  have hblock := transaction_idle SqlError.inFailedSqlTransaction (acts_block m) s
  rw [h] at hblock
  exact hblock

/-- From a connection at rest the loop commits one file after the other. -/
theorem applyFiles_idle {ms before after : List (Migration σ)} {failing : Migration σ}
    {done versions : List String}
    {appliedNow : List String} {s : Server σ} {schema : σ} {message : String}
    (hv : s.schemaMigrations = some versions)
    (hpending : unrecorded done ms = before ++ failing :: after) (hran : runAll before s.schema = .ok schema)
    (hfresh : Fresh versions before) (hfails : failing.sqlText schema = .error message) :
    applyFiles done ms appliedNow ⟨s, .idle⟩ = (.error (.failed message), ⟨{ s with
      schemaMigrations := some (versions ++ before.map Migration.version), schema }, .idle⟩) := by
  induction ms generalizing before versions appliedNow s with
  | nil => simp [unrecorded] at hpending
  | cons m ms ih =>
    rw [unrecorded, List.filter_cons, ← unrecorded] at hpending
    rw [applyFiles]
    by_cases hdone : done.contains m.version = true
    · rw [if_neg (by simpa using hdone)] at hpending
      rw [if_pos hdone]
      exact ih hv hpending hran hfresh
    · rw [if_pos (by simpa using hdone)] at hpending
      rw [if_neg hdone]
      cases before with
      | nil =>
        obtain ⟨rfl, -⟩ := List.cons.inj hpending
        obtain rfl := Except.ok.inj hran
        rw [Proc.bind_of_error (applyFile_idle_error (fileTx_fails hfails))]
        simp [← hv]
      | cons b before =>
        rw [List.cons_append] at hpending
        obtain ⟨rfl, htail⟩ := List.cons.inj hpending
        obtain ⟨schema₁, hsql, hran⟩ := runAll_cons.1 hran
        obtain ⟨hnew, hfresh⟩ := hfresh.tail
        have hrest := @ih before (versions ++ [m.version]) (appliedNow ++ [m.version])
          { s with schemaMigrations := some (versions ++ [m.version]), schema := schema₁ } rfl htail hran hfresh
        rw [Proc.bind_of_ok (applyFile_idle_ok (fileTx_ok hv hnew hsql)), hrest]
        simp only [List.append_assoc, List.singleton_append, List.map_cons]

/-! ## Runs that fail -/

/-- A file's SQL is replaced. -/
def repair (dir : MigrationsDir σ) (repaired : Migration σ) : MigrationsDir σ where
  contents := dir.contents.map fun m => if m.version = repaired.version then repaired else m
  nodup := by
    rw [List.map_map]
    refine (List.map_congr_left fun m _ => ?_) ▸ dir.nodup
    show m.version = (if m.version = repaired.version then repaired else m).version
    by_cases h : m.version = repaired.version
    · rw [if_pos h, h]
    · rw [if_neg h]

/-- The pending files of a run, up to the first whose SQL fails, and what the SQL before it makes of the
schema. -/
structure FailsAt (dir : MigrationsDir σ) (s : Server σ) (before : List (Migration σ)) (failing : Migration σ)
    (after : List (Migration σ)) (schema : σ) (message : String) : Prop where
  pending : unrecorded s.recorded dir.files = before ++ failing :: after
  ran : runAll before s.schema = .ok schema
  fails : failing.sqlText schema = .error message

/-- The run that fails leaves the files before it recorded and applied, and a run after the repair applies the
rest. -/
def CommitsOneByOne (settings : MigrateSettings) (dir : MigrationsDir σ) (s : Server σ)
    (before : List (Migration σ))
    (failing : Migration σ) (after : List (Migration σ)) (schema : σ) (message : String) : Prop :=
  ∃ s', applyPending settings dir s = (.error (.failed message), s') ∧
    s'.recorded = s.recorded ++ before.map Migration.version ∧ s'.schema = schema ∧
    ∀ repaired : Migration σ, repaired.version = failing.version →
      ∀ final, runAll (repaired :: after) schema = .ok final →
        ∃ s'', applyPending settings (repair dir repaired) s' =
            (.ok (failing.version :: after.map Migration.version), s'') ∧
          s''.recorded = s'.recorded ++ failing.version :: after.map Migration.version ∧ s''.schema = final

theorem files_nodup (dir : MigrationsDir σ) : (dir.files.map Migration.version).Nodup :=
  ((List.perm_insertionSort _ dir.contents).map Migration.version).symm.nodup dir.nodup

theorem fresh_unrecorded (dir : MigrationsDir σ) (s : Server σ) : Fresh s.recorded
    (unrecorded s.recorded dir.files) := by
  refine ⟨(files_nodup dir).sublist (List.filter_sublist.map _), fun m hm => ?_⟩
  simpa using (List.mem_filter.1 hm).2

/-- The repair changes no file's name, so no order and nothing else that is pending. -/
theorem unrecorded_repair (done : List String) (dir : MigrationsDir σ) (repaired : Migration σ) :
    unrecorded done (repair dir repaired).files =
      (unrecorded done dir.files).map fun m => if m.version = repaired.version then repaired else m := by
  have hversion : ∀ m : Migration σ,
      (if m.version = repaired.version then repaired else m).version = m.version := by
    intro m
    by_cases h : m.version = repaired.version
    · rw [if_pos h, h]
    · rw [if_neg h]
  have hfiles : (repair dir repaired).files =
      dir.files.map fun m => if m.version = repaired.version then repaired else m := by
    unfold MigrationsDir.files orderBy repair
    refine (List.map_insertionSort _ _ _ _ fun a _ b _ => ?_).symm
    simp only [hversion]
  rw [hfiles, unrecorded, unrecorded, List.filter_map]
  refine congrArg _ (List.filter_congr fun m _ => ?_)
  rw [Function.comp, hversion]

/-- A run that succeeds applies what is pending. -/
theorem applyPending_ok (settings : MigrateSettings) {dir : MigrationsDir σ} {s : Server σ} {final : σ}
    (hran : runAll (unrecorded s.recorded dir.files) s.schema = .ok final) :
    ∃ s', applyPending settings dir s = (.ok ((unrecorded s.recorded dir.files).map Migration.version), s') ∧
      s'.recorded = s.recorded ++ (unrecorded s.recorded dir.files).map Migration.version ∧
        s'.schema = final := by
  have hall := @filesTx_append _ (unrecorded s.recorded dir.files) [] [] s.recorded (prepared settings s) final
    rfl hran (fresh_unrecorded dir s)
  rw [List.append_nil, filesTx, List.nil_append] at hall
  refine ⟨{ prepared settings s with
    schemaMigrations := some (s.recorded ++ (unrecorded s.recorded dir.files).map Migration.version)
    schema := final }, ?_, rfl, rfl⟩
  rw [applyPending_eq, hall]

/-- A run that fails takes every file back. -/
theorem applyPending_fails (settings : MigrateSettings) {dir : MigrationsDir σ} {s : Server σ}
    {before after : List (Migration σ)} {failing : Migration σ} {schema : σ} {message : String}
    (h : FailsAt dir s before failing after schema message) :
    applyPending settings dir s = (.error (.failed message), prepared settings s) := by
  have hfresh := fresh_unrecorded dir s
  rw [h.pending] at hfresh
  have hran := @filesTx_append _ before (failing :: after) [] s.recorded (prepared settings s) schema
    rfl h.ran hfresh.left
  rw [applyPending_eq, h.pending, hran, filesTx_fails h.fails]

/-- The files of a failed run commit one by one exactly if the first pending one is the one that fails: any
file before it is taken back. -/
theorem migrations_commit_one_by_one_iff (settings : MigrateSettings) {dir : MigrationsDir σ} {s : Server σ}
    {before after : List (Migration σ)} {failing : Migration σ} {schema : σ} {message : String}
    (h : FailsAt dir s before failing after schema message) :
    CommitsOneByOne settings dir s before failing after schema message ↔ before = [] := by
  constructor
  · rintro ⟨s', hrun, hrecorded, -, -⟩
    rw [applyPending_fails settings h] at hrun
    obtain rfl := congrArg Prod.snd hrun
    rw [recorded_prepared, List.self_eq_append_right, List.map_eq_nil_iff] at hrecorded
    exact hrecorded
  · rintro rfl
    obtain rfl := Except.ok.inj h.ran
    refine ⟨_, applyPending_fails settings h, (List.append_nil _).symm, rfl, ?_⟩
    intro repaired hname final hran
    have hfresh := fresh_unrecorded dir s
    rw [h.pending, List.nil_append] at hfresh
    have hpending : unrecorded s.recorded (repair dir repaired).files = repaired :: after := by
      rw [unrecorded_repair, h.pending, List.nil_append, List.map_cons, if_pos hname.symm]
      refine congrArg _ ((List.map_congr_left fun m hm => ?_).trans (List.map_id after))
      rw [if_neg, id]
      intro he
      exact (List.nodup_cons.1 hfresh.1).1 (List.mem_map.2 ⟨m, hm, he.trans hname⟩)
    have hagain := @applyPending_ok _ settings (repair dir repaired) (prepared settings s) final
      (by rw [recorded_prepared, hpending]; exact hran)
    rw [recorded_prepared, hpending, List.map_cons, hname] at hagain
    exact hagain

/-- Three files, of which the second fails. -/
def threeFiles : MigrationsDir (List String) where
  contents := [⟨"0001_init", fun tables => .ok (tables ++ ["users"])⟩,
    ⟨"0002_broken", fun _ => .error "syntax error"⟩, ⟨"0003_acl", fun tables => .ok (tables ++ ["acl"])⟩]
  nodup := by decide

/-- Where the first file is recorded, nothing is taken back when the second fails. -/
theorem second_file_commits_alone :
    CommitsOneByOne ⟨"app", "secret", "owner"⟩ threeFiles
      { schemaMigrations := some ["0001_init"], schema := ["users"] } []
    ⟨"0002_broken", fun _ => .error "syntax error"⟩
      [⟨"0003_acl", fun tables => .ok (tables ++ ["acl"])⟩] ["users"] "syntax error" :=
  (migrations_commit_one_by_one_iff ⟨"app", "secret", "owner"⟩ ⟨by rfl, rfl, rfl⟩).2 rfl

/-- On an empty database the first file is taken back when the second fails. -/
theorem first_file_taken_back :
    let s : Server (List String) := { schema := [] }
    let first : Migration (List String) := ⟨"0001_init", fun tables => .ok (tables ++ ["users"])⟩
    let second : Migration (List String) := ⟨"0002_broken", fun _ => .error "syntax error"⟩
    let third : Migration (List String) := ⟨"0003_acl", fun tables => .ok (tables ++ ["acl"])⟩
    FailsAt threeFiles s [first] second [third] ["users"] "syntax error" ∧
      (applyPending ⟨"app", "secret", "owner"⟩ threeFiles s).2.recorded = [] ∧
      ¬ CommitsOneByOne ⟨"app", "secret", "owner"⟩ threeFiles s [first] second [third] ["users"]
        "syntax error" := by
  intro s first second third
  have hfails : FailsAt threeFiles s [first] second [third] ["users"] "syntax error" := ⟨by rfl, rfl, rfl⟩
  have hrun := applyPending_fails ⟨"app", "secret", "owner"⟩ hfails
  refine ⟨hfails, by rw [hrun]; rfl, ?_⟩
  rintro ⟨s', hrun', hrecorded, -, -⟩
  rw [hrun] at hrun'
  obtain rfl := congrArg Prod.snd hrun'
  exact absurd hrecorded (by decide)

end KnowledgeDesk.Proofs
