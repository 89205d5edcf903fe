import KnowledgeDesk.Proofs.HandlersProofs
import KnowledgeDesk.Proofs.OpenAnswersProofs
import KnowledgeDesk.Process

/-!
# The process does what the service does

Whatever requests come in, and however their handlers, the streams, the workers and the drain take their
turns, the database of the process is one that the service comes to: each step of a handler and each
operation of a stream is a transaction of the service, under a context that has been issued, or none.
-/

namespace KnowledgeDesk.Proofs

open Runs

variable {env : Env} {deployment : Deployment} {conn : Nat}

/-! ## The ask streams of the process -/

section AskStreams

variable {a a' : AskStreams}

/-- The streams and what has happened to them are the same. -/
structure SameStreams (a a' : AskStreams) : Prop where
  streams : a'.streams = a.streams
  log : a'.log = a.log

theorem SameStreams.history (h : SameStreams a a') : a'.history = a.history := by
  funext i
  unfold AskStreams.history
  rw [h.log]

theorem SameStreams.openAsk (h : SameStreams a a') (i : Nat) : a'.openAsk i = a.openAsk i := by
  unfold AskStreams.openAsk
  rw [h.streams, h.history]

theorem SameStreams.living (h : SameStreams a a') (ha : Living a) : Living a' := by
  constructor
  · intro i hi
    rw [h.history]
    exact ha.unopened i (h.streams ▸ hi)
  · intro i s hi
    rw [h.history]
    exact ha.unstarted i s (h.streams ▸ hi)
  · intro i s hi
    rw [h.history]
    exact ha.started i s (h.streams ▸ hi)

/-- A step keeps the streams there are, whose they are, and what they were called with. -/
theorem askStep_kept (env : Env) (a : AskStreams) (l : AskStreams.Label) {i : Nat} {stream : AskStream}
    (hi : a.streams i = some stream) : ∃ stream', (AskStreams.step env a l).streams i = some stream' ∧
      stream'.ctx = stream.ctx ∧ stream'.req = stream.req := by
  have hset : ∀ (j : Nat) (s s' : AskStream), a.streams j = some s → s'.ctx = s.ctx → s'.req = s.req →
      ∃ stream', (a.setStream j s').streams i = some stream' ∧ stream'.ctx = stream.ctx ∧
        stream'.req = stream.req := by
    intro j s s' hs hctx hreq
    by_cases hij : i = j
    · subst hij
      obtain rfl := Option.some.inj (hi.symm.trans hs)
      exact ⟨s', setStream_self a i s', hctx, hreq⟩
    · exact ⟨stream, (setStream_of_ne a s' hij).trans hi, rfl, rfl⟩
  rcases @askStep_cases env a l with hid | ⟨j, ctx, req, he, hs, hstep⟩ |
    ⟨j, s, rest, hs, hst, hrest, hstep⟩ | ⟨j, now, fault, reference, s, o, k, he, hs, hst, hr, hstep⟩ |
    ⟨j, now, signal, s, f, k, he, hs, hst, hr, hstep⟩
  · rw [hid]
    exact ⟨stream, hi, rfl, rfl⟩
  · have hij : i ≠ j := by
      rintro rfl
      rw [hs] at hi
      cases hi
    rw [hstep]
    exact ⟨stream, (setStream_of_ne a _ hij).trans hi, rfl, rfl⟩
  all_goals
    rw [hstep]
    exact hset j s _ hs rfl rfl

/-- A stream that comes has been asked for. -/
theorem askStep_new (a : AskStreams) (l : AskStreams.Label) {i : Nat} {stream : AskStream}
    (hnone : a.streams i = none) (hi : (AskStreams.step env a l).streams i = some stream) :
    ∃ req, l = .ask i stream.ctx req ∧ stream.req.provider = req.provider := by
  have hset : ∀ (j : Nat) (s s' : AskStream), a.streams j = some s → (a.setStream j s').streams i = none := by
    intro j s s' hs
    have hij : i ≠ j := by
      rintro rfl
      rw [hs] at hnone
      cases hnone
    exact (setStream_of_ne a s' hij).trans hnone
  rcases @askStep_cases env a l with hid | ⟨j, ctx, req, he, hs, hstep⟩ |
    ⟨j, s, rest, hs, hst, hrest, hstep⟩ | ⟨j, now, fault, reference, s, o, k, he, hs, hst, hr, hstep⟩ |
    ⟨j, now, signal, s, f, k, he, hs, hst, hr, hstep⟩
  · rw [hid, hnone] at hi
    cases hi
  · by_cases hij : i = j
    · subst hij
      rw [hstep, setStream_self] at hi
      obtain rfl := Option.some.inj hi
      exact ⟨req, he, rfl⟩
    · rw [hstep, setStream_of_ne a _ hij, hnone] at hi
      cases hi
  all_goals
    rw [hstep] at hi
    cases (hset j s _ hs).symm.trans hi

/-- A stream's event changes the answer that it has open, and no other's. -/
theorem openAsk_advance (a : AskStreams) {i : Nat} {s : AskStream} (now : Time) (e : AskEvent) (rest : AskGen)
    (j : Nat) : (a.advance i s now e rest).openAsk j =
      if j = i then (AskStreams.opened (AskStreams.openAnswer (a.history i)) e).map fun answerId => (s.ctx, answerId)
      else a.openAsk j := by
  unfold AskStreams.openAsk
  rw [history_advance]
  by_cases hj : j = i
  · subst hj
    rw [if_pos rfl, if_pos rfl, openAnswer_snoc]
    simp [AskStreams.advance, AskStreams.setStream]
  · rw [if_neg hj, if_neg hj]
    simp [AskStreams.advance, AskStreams.setStream, hj]

/-- A stream that is as it was, but for what is left of it, has open what it had. -/
theorem openAsk_setStream (a : AskStreams) {i : Nat} {s : AskStream}
    (hs : (a.openAsk i) = (AskStreams.openAnswer (a.history i)).map fun answerId => (s.ctx, answerId)) (j : Nat) :
    (a.setStream i s).openAsk j = a.openAsk j := by
  by_cases hj : j = i
  · subst hj
    rw [hs]
    unfold AskStreams.openAsk
    rw [setStream_self]
    rfl
  · unfold AskStreams.openAsk
    rw [setStream_of_ne a s hj]
    rfl

theorem openAsk_some {i : Nat} {s : AskStream} (hs : a.streams i = some s) :
    a.openAsk i = (AskStreams.openAnswer (a.history i)).map fun answerId => (s.ctx, answerId) := by
  unfold AskStreams.openAsk
  rw [hs]
  rfl

end AskStreams

theorem withStreams_conns (s : Process) (a : AskStreams) (i : Nat) :
    (s.withStreams a).conns i = ((a.streams i).map Conn.streaming).getD (s.conns i) := rfl

/-- Where the streams of the process take a step, they are the ask streams after that step. -/
theorem streams_step (s : Process) (l : AskStreams.Label) :
    (s.withStreams (AskStreams.step env s.streams l)).streams = AskStreams.step env s.streams l := by
  set a := AskStreams.step env s.streams l with ha
  have hstreams : (fun i => ((s.withStreams a).conns i).stream?) = a.streams := by
    funext i
    rw [withStreams_conns]
    cases hi : a.streams i with
    | some stream => rfl
    | none =>
      cases hs : (s.conns i).stream? with
      | none => exact hs
      | some stream =>
        obtain ⟨stream', hkept, -⟩ := askStep_kept env s.streams l (i := i) hs
        rw [← ha, hi] at hkept
        cases hkept
  show (⟨a.db, a.nextId, fun i => ((s.withStreams a).conns i).stream?, a.log⟩ : AskStreams) = a
  rw [hstreams]

/-! ## What a stream does -/

/-- No worker and no upload is touched, and what has been found remains found. -/
structure Alongside (t t' : Service) : Prop where
  workers : t'.pipeline.workers = t.pipeline.workers
  requests : t'.pipeline.requests = t.pipeline.requests
  issued : ∀ ctx ∈ t.issued, ctx ∈ t'.issued
  checked : ∀ p ∈ t.checked, p ∈ t'.checked

theorem Alongside.refl (t : Service) : Alongside t t := ⟨rfl, rfl, fun _ h => h, fun _ h => h⟩

/-- A step of the service that a stream may take, or none, and what it leaves. -/
structure Operates (env : Env) (conn : Nat) (t t' : Service) (ask : Option (AuthContext × Uuid)) (db : Db)
    (drawn : Nat) : Prop where
  run : ∃ ls, AtMostOne False ls ∧ t' = run (Service.step env) t ls
  alongside : Alongside t t'
  db : t'.db = db
  nextId : t'.nextId = t.nextId + drawn
  asks : t'.asks = Function.update t.asks conn ask

section Streams

variable {t : Service} {ctx : AuthContext} {h : List AskEvent} {ask : Option (AuthContext × Uuid)} {db : Db}

/-- Nothing happens in the service. -/
theorem Operates.rest : Operates env conn t t (t.asks conn) t.db 0 :=
  ⟨⟨[], .nil, rfl⟩, .refl t, rfl, rfl, (Function.update_eq_self conn t.asks).symm⟩

/-- A step that stores a database, and leaves the stream's answer so. -/
theorem Operates.store {l : Service.Label} {drawn : Nat} (hl : spansOrgs l = false)
    (h : Service.step env t l = { t.store db drawn with asks := Function.update t.asks conn ask }) :
    Operates env conn t (Service.step env t l) ask db drawn := by
  refine ⟨⟨[l], .single fun hs => Bool.false_ne_true (hl.symm.trans hs), rfl⟩, ?_, ?_, ?_, ?_⟩
  all_goals rw [h]
  · exact ⟨rfl, rfl, fun _ h => h, fun _ h => h⟩
  all_goals rfl

theorem operates_audit (env : Env) (conn : Nat) (hissued : ctx ∈ t.issued) (action : String)
    (detail : List (String × DetailValue)) (now : Time) :
    Operates env conn t (Service.step env t (.audit ctx action detail now)) (t.asks conn)
      (auditLog env ctx.orgId (some ctx.userId) action detail now t.db).2 0 := by
  have hself : Function.update t.asks conn (t.asks conn) = t.asks := Function.update_eq_self conn t.asks
  have hstep : Service.step env t (.audit ctx action detail now) =
      t.commit (auditTx env ctx.orgId (some ctx.userId) action detail now) := if_pos (passes_iff.2 ⟨hissued, rfl⟩)
  refine .store rfl (hstep.trans ?_)
  rw [hself]
  rcases htx : auditTx env ctx.orgId (some ctx.userId) action detail now t.db with e | ⟨⟨⟩, db⟩
  · simp only [Service.commit, htx, auditLog, Proc.tryExcept, Proc.transact_of_error htx]
    rfl
  · simp only [commit_ok htx, auditLog, Proc.tryExcept, Proc.transact_of_ok htx]
    rfl

/-- Each operation of a stream is a step of the service, or none. -/
theorem operates_reply (env : Env) (conn : Nat) (hissued : ctx ∈ t.issued)
    (hasks : t.asks conn = (AskStreams.openAnswer h).map fun answerId => (ctx, answerId)) {o : AskOp}
    (hopen : OpenFor h o) (now : Time) (fault : Option Err) (reference : String) :
    let r := AskStreams.reply env ctx t.nextId now fault reference t.db o
    ∃ t', Operates env conn t t' ((AskStreams.opened (AskStreams.openAnswer h) (.performed o r.1)).map
      fun answerId => (ctx, answerId)) r.2 (AskStreams.drawn o r.1) := by
  have hrest : Operates env conn t t ((AskStreams.openAnswer h).map fun answerId => (ctx, answerId)) t.db 0 :=
    hasks ▸ .rest
  cases o with
  | receive event => exact ⟨t, hrest⟩
  | tokenHex => exact ⟨t, hrest⟩
  | audit action detail =>
    cases fault with
    | some e => exact ⟨t, hrest⟩
    | none =>
      have haudit := operates_audit env conn hissued action detail now
      rw [hasks] at haudit
      exact ⟨_, haudit⟩
  | db call =>
    cases fault with
    | some e => cases call <;> exact ⟨t, hrest⟩
    | none =>
      cases call with
      | spendLast24h | questionsThisMonth | platformSpendToday | retrievalStats | search => exact ⟨t, hrest⟩
      | markBlocked answerId =>
        have hopen : AskStreams.openAnswer h = some answerId := hopen
        refine ⟨_, Operates.store (l := .block conn) rfl ?_⟩
        rw [Service.step, hasks, hopen]
        rfl
      | finalizeAnswer answerId usage estimated =>
        have hopen : AskStreams.openAnswer h = some answerId := hopen
        refine ⟨_, Operates.store (l := .finalize conn usage estimated now) rfl ?_⟩
        rw [Service.step, hasks, hopen]
        rfl
      | recordAnswer question provider refused =>
        have hopen : AskStreams.openAnswer h = none := hopen
        have hnone : t.asks conn = none := by rw [hasks, hopen]; rfl
        have hreply : AskStreams.reply env ctx t.nextId now none reference t.db
            (.db (.recordAnswer question provider refused)) =
            Proc.transact (recordAnswerTx ctx question provider refused t.nextId now) t.db := rfl
        rw [hreply]
        rcases htx : recordAnswerTx ctx question provider refused t.nextId now t.db with e | ⟨answerId, db⟩
        · rw [Proc.transact_of_error htx]
          exact ⟨t, hrest⟩
        · rw [Proc.transact_of_ok htx]
          refine ⟨_, Operates.store (l := .ask conn ctx question provider refused now) rfl ?_⟩
          rw [Service.step, if_pos ⟨passes_iff.2 ⟨hissued, rfl⟩, hnone⟩, htx]
          rfl

end Streams

/-! ## Runs -/

/-- What a connection is in the service: an upload that may be under way, or a stream under a context that
has been issued. -/
def Connected (env : Env) (conn : Nat) (t : Service) : Conn → Prop
  | .idle => t.pipeline.requests conn = []
  | .handling h => ∃ loc : Knows, loc.Holds conn t ∧ Refining env conn h loc Answered
  | .streaming stream => stream.ctx ∈ t.issued ∧ Providers.RepositoryProvider stream.req.provider
  | .closed => True

/-- The service is where the process is. -/
structure Serves (env : Env) (s : Process) (t : Service) : Prop where
  store : ShowsStore t s.store
  workers : t.pipeline.workers = s.workers
  conns : ∀ i, Connected env i t (s.conns i)
  asks : ∀ i, t.asks i = s.streams.openAsk i
  living : Living s.streams

/-- Others keep away from a connection. -/
theorem Connected.frame {t t' : Service} {c : Conn} (h : Connected env conn t c)
    (hrequests : t'.pipeline.requests conn = t.pipeline.requests conn)
    (hissued : ∀ ctx ∈ t.issued, ctx ∈ t'.issued) (hchecked : ∀ p ∈ t.checked, p ∈ t'.checked) :
    Connected env conn t' c := by
  cases c with
  | idle => exact hrequests.trans h
  | handling handler =>
    obtain ⟨loc, hl, hrefines⟩ := h
    refine ⟨loc, ⟨?_, ?_, hrequests.trans hl.pending⟩, hrefines⟩
    · exact fun c hc => hissued c (hl.issued c hc)
    · exact fun p hp => hchecked p (hl.checked p hp)
  | streaming stream => exact ⟨hissued _ h.1, h.2⟩
  | closed => trivial

theorem sameStreams_goto {s : Process} {c : Conn} (store : Store) (hc : c.stream? = (s.conns conn).stream?) :
    SameStreams s.streams ({ s with store }.goto conn c).streams := by
  refine ⟨funext fun i => ?_, rfl⟩
  by_cases hi : i = conn
  · subst hi
    simp [Process.streams, Process.goto, hc]
  · simp [Process.streams, Process.goto, hi]

/-- One connection without a stream goes on, while the service takes steps that touch no other. -/
theorem Serves.goto {s : Process} {t t' : Service} (h : Serves env s t) {store : Store} {c : Conn}
    (hstore : ShowsStore t' store) (hu : Unhindered conn t t') (hc : Connected env conn t' c)
    (hstream : c.stream? = (s.conns conn).stream?) : Serves env ({ s with store }.goto conn c) t' := by
  have hsame : SameStreams s.streams ({ s with store }.goto conn c).streams := sameStreams_goto store hstream
  refine ⟨hstore, hu.workers.trans h.workers, fun j => ?_, fun j => ?_, hsame.living h.living⟩
  · by_cases hj : j = conn
    · subst hj
      simpa [Process.goto] using hc
    · have hother := (h.conns j).frame (hu.requests j hj) hu.issued hu.checked
      simpa [Process.goto, hj] using hother
  · rw [hsame.openAsk, hu.asks, h.asks]

theorem Serves.stay {s : Process} {t : Service} (h : Serves env s t) {c : Conn} (hc : Connected env conn t c)
    (hstream : c.stream? = (s.conns conn).stream?) : Serves env (s.goto conn c) t :=
  h.goto h.store (.refl t) hc hstream

/-- The streams take a step, and the service beside them. -/
theorem Serves.streams {s : Process} {t t' : Service} (h : Serves env s t) {l : AskStreams.Label}
    (hbeside : Alongside t t') (hdb : t'.db = (AskStreams.step env s.streams l).db)
    (hnext : t'.nextId = (AskStreams.step env s.streams l).nextId)
    (hasks : ∀ i, t'.asks i = (AskStreams.step env s.streams l).openAsk i)
    (hask : ∀ i ctx req, l = .ask i ctx req → ctx ∈ t'.issued ∧ Providers.RepositoryProvider req.provider) :
    Serves env (s.withStreams (AskStreams.step env s.streams l)) t' := by
  refine ⟨⟨hdb, hnext⟩, hbeside.workers.trans h.workers, fun i => ?_, fun i => ?_, ?_⟩
  · rw [withStreams_conns]
    cases hi : (AskStreams.step env s.streams l).streams i with
    | none => exact (h.conns i).frame (congrFun hbeside.requests i) hbeside.issued hbeside.checked
    | some stream =>
      show stream.ctx ∈ t'.issued ∧ Providers.RepositoryProvider stream.req.provider
      cases hs : s.streams.streams i with
      | none =>
        obtain ⟨req, hl, hprovider⟩ := askStep_new s.streams l hs hi
        rw [hprovider]
        exact hask i stream.ctx req hl
      | some stream₀ =>
        obtain ⟨stream', hkept, hctx, hreq⟩ := askStep_kept env s.streams l hs
        obtain rfl := Option.some.inj (hkept.symm.trans hi)
        have hconn : Connected env i t (s.conns i) := h.conns i
        have hc : s.conns i = .streaming stream₀ := by
          have hs : (s.conns i).stream? = some stream₀ := hs
          unfold Conn.stream? at hs
          split at hs
          · rename_i hc
            rw [hc, Option.some.inj hs]
          · cases hs
        rw [hc] at hconn
        rw [hctx, hreq]
        exact ⟨hbeside.issued _ hconn.1, hconn.2⟩
  · rw [streams_step]
    exact hasks i
  · rw [streams_step]
    exact living_step h.living l

/-- The stream that a connection has. -/
theorem Serves.stream {s : Process} {t : Service} (h : Serves env s t) {i : Nat} {stream : AskStream}
    (hs : s.streams.streams i = some stream) :
    stream.ctx ∈ t.issued ∧ Providers.RepositoryProvider stream.req.provider := by
  have hs : (s.conns i).stream? = some stream := hs
  have hconn : Connected env i t (s.conns i) := h.conns i
  unfold Conn.stream? at hs
  split at hs
  · rename_i hc
    rw [hc, Option.some.inj hs] at hconn
    exact hconn
  · cases hs

/-- What a stream does, the service does, or it is none of its steps. -/
theorem Serves.streamStep {s : Process} {t : Service} (h : Serves env s t) (l : AskStreams.Label)
    (hask : ∀ i ctx req, l = .ask i ctx req → ctx ∈ t.issued ∧ Providers.RepositoryProvider req.provider) :
    ∃ ls, AtMostOne False ls ∧
      Serves env (s.withStreams (AskStreams.step env s.streams l)) (run (Service.step env) t ls) := by
  obtain ⟨hdb, hnext⟩ := h.store
  rcases @askStep_cases env s.streams l with hid | ⟨i, ctx, req, he, hs, hstep⟩ |
    ⟨i, stream, rest, hs, hst, hrest, hstep⟩ | ⟨i, now, fault, reference, stream, o, k, he, hs, hst, hr, hstep⟩ |
    ⟨i, now, signal, stream, f, k, he, hs, hst, hr, hstep⟩
  · refine ⟨[], .nil, h.streams (.refl t) ?_ ?_ (fun j => ?_) hask⟩ <;> rw [hid]
    · exact hdb
    · exact hnext
    · exact h.asks j
  · -- a stream that is asked for has not begun
    refine ⟨[], .nil, h.streams (.refl t) ?_ ?_ (fun j => ?_) hask⟩ <;> rw [hstep]
    · exact hdb
    · exact hnext
    · refine (h.asks j).trans (openAsk_setStream s.streams ?_ j).symm
      rw [h.living.unopened i hs, AskStreams.openAsk, hs]
      rfl
  · refine ⟨[], .nil, h.streams (.refl t) ?_ ?_ (fun j => ?_) hask⟩ <;> rw [hstep]
    · exact hdb
    · exact hnext
    · have hsame : s.streams.openAsk i = (AskStreams.openAnswer (s.streams.history i)).map
          fun answerId => (({ stream with started := true, rest } : AskStream).ctx, answerId) :=
        (openAsk_some hs).trans rfl
      exact (h.asks j).trans (openAsk_setStream s.streams hsame j).symm
  · -- the generator has come to the operation by its history
    have hreach : Gen.Reaches (Assistant.start stream.req) (s.streams.history i) (.perform o k) := by
      rcases h.living.started i stream hs hst with hreach | ⟨-, hret⟩
      · rwa [hr] at hreach
      · rw [hr] at hret
        cases hret
    have hopen : OpenFor (s.streams.history i) o :=
      openFor_of_reaches (fun contexts => usages_le_one (h.stream hs).2 _ contexts) hreach
    obtain ⟨t', hoperates⟩ := operates_reply env i (h.stream hs).1
      ((h.asks i).trans (openAsk_some hs)) hopen now fault reference
    obtain ⟨ls, hone, rfl⟩ := hoperates.run
    rw [hdb, hnext] at hoperates
    refine ⟨ls, hone, h.streams hoperates.alongside ?_ ?_ (fun j => ?_) fun i' ctx req hl => ?_⟩
    · rw [hstep]
      exact hoperates.db
    · rw [hstep]
      exact hoperates.nextId.trans (congrArg (· + _) hnext)
    · rw [hstep, hoperates.asks]
      show _ = (s.streams.advance i stream now _ _).openAsk j
      rw [openAsk_advance]
      by_cases hj : j = i
      · rw [hj, if_pos rfl, Function.update_self]
        rfl
      · rw [if_neg hj, Function.update_of_ne hj, h.asks]
    · rw [he] at hl
      cases hl
  · refine ⟨[], .nil, h.streams (.refl t) ?_ ?_ (fun j => ?_) hask⟩ <;> rw [hstep]
    · exact hdb
    · exact hnext
    · refine (h.asks j).trans ?_
      rw [openAsk_advance]
      split
      · rename_i hj
        rw [hj]
        exact openAsk_some hs
      · rfl

/-- A worker does not look at the uploads. -/
theorem work_requests {l : Pipeline.Label} (hl : Process.isWork l = true) (p : Pipeline)
    (requests : Nat → List PendingJob) :
    Pipeline.step env { p with requests } l = { Pipeline.step env p l with requests } := by
  cases l with
  | sync | enqueue | abandon | updateAcl | deleteDocument => cases hl
  | interrupt worker error | crash worker => rfl
  | claim worker locked now =>
    simp only [Pipeline.step]
    split
    · split <;> rfl
    · rfl
  | read worker =>
    simp only [Pipeline.step]
    split <;> rfl
  | embed worker embedDocuments =>
    simp only [Pipeline.step]
    split
    · split <;> rfl
    · rfl
  | write worker now =>
    simp only [Pipeline.step]
    split
    · split <;> rfl
    · rfl
  | succeed worker now =>
    simp only [Pipeline.step, Pipeline.commit]
    split
    · split <;> rfl
    · rfl
  | fail worker now =>
    simp only [Pipeline.step]
    split
    · split
      · split <;> rfl
      · rfl
    · rfl
  | failDocument worker now =>
    simp only [Pipeline.step, Pipeline.commit]
    split
    · split
      · rfl
      · split <;> rfl
    · rfl

theorem Serves.work {s : Process} {t : Service} (h : Serves env s t) {l : Pipeline.Label}
    (hl : Process.isWork l = true) :
    Serves env (Process.step env deployment s (.work l)) (Service.step env t (.background l)) := by
  have hbackground : Service.isBackground l = true := by
    cases l <;> first | rfl | cases hl
  have hpipeline : t.pipeline = { s.pipeline with requests := t.pipeline.requests } := by
    obtain ⟨hdb, hnext⟩ := h.store
    have hworkers := h.workers
    obtain ⟨⟨db, nextId, workers, requests⟩, issued, checked, asks⟩ := t
    simp only [Service.db, Service.nextId] at hdb hnext hworkers
    subst hdb hnext hworkers
    rfl
  have hstep : (Service.step env t (.background l)).pipeline =
      { Pipeline.step env s.pipeline l with requests := t.pipeline.requests } := by
    rw [Service.step, if_pos hbackground, Service.ingest]
    show Pipeline.step env t.pipeline l = _
    rw [hpipeline, work_requests hl]
  have hrest : Service.step env t (.background l) =
      { t with pipeline := (Service.step env t (.background l)).pipeline } := by
    rw [Service.step, if_pos hbackground]
    rfl
  rw [hstep] at hrest
  rw [hrest, Process.step, if_pos hl]
  refine ⟨⟨rfl, rfl⟩, rfl, fun i => (h.conns i).frame rfl (fun _ h => h) fun _ h => h, fun i => ?_, ?_⟩
  · exact h.asks i
  · exact SameStreams.living (a := s.streams) ⟨rfl, rfl⟩ h.living

/-- The database of a transaction that nobody but the process itself runs. -/
theorem Serves.transact {s : Process} {t : Service} (h : Serves env s t) (tx : Tx Db Err Unit) :
    Serves env (s.commit tx) (t.commit tx) := by
  obtain ⟨hdb, hnext⟩ := h.store
  unfold Process.commit Service.commit
  rw [hdb]
  rcases tx s.store.db with e | ⟨⟨⟩, db⟩
  · exact h
  · have hsame : SameStreams s.streams { s with store := { s.store with db } }.streams := ⟨rfl, rfl⟩
    exact ⟨⟨rfl, hnext⟩, h.workers, fun i => (h.conns i).frame rfl (fun _ h => h) fun _ h => h,
      fun i => (h.asks i).trans (hsame.openAsk i).symm, hsame.living h.living⟩

/-- A response leaves. -/
theorem Serves.respond {s : Process} {t : Service} (h : Serves env s t) (deployment : Deployment)
    {r : Except HttpError HttpResponse} (hc : s.conns conn = .handling (.done r)) :
    ∃ ls, AtMostOne False ls ∧ Serves env (s.respond env deployment conn r) (run (Service.step env) t ls) := by
  have hconn : Connected env conn t (s.conns conn) := h.conns conn
  rw [hc] at hconn
  obtain ⟨loc, hl, hrefines⟩ := hconn
  have hclosed : Serves env (s.goto conn .closed) t := h.stay trivial (by rw [hc]; rfl)
  cases r with
  | error e => exact ⟨[], .nil, hclosed⟩
  | ok response =>
    obtain ⟨status, body⟩ := response
    cases body
    case stream ctx question k =>
      refine h.streamStep (.ask conn ctx (deployment.ask env conn question k)) fun i ctx' req he => ?_
      obtain ⟨rfl, rfl, rfl⟩ := AskStreams.Label.ask.inj he
      exact ⟨hl.issued _ (hrefines.2 _ _ _ rfl).1, deployment.repository conn⟩
    all_goals exact ⟨[], .nil, hclosed⟩

/-- One step of the process is none, or one, of the service. -/
theorem Serves.step {s : Process} {t : Service} (h : Serves env s t) (deployment : Deployment)
    (l : Process.Label) :
    ∃ ls, AtMostOne (∃ now, l = .purgeExpiredSessions now) ls ∧
      Serves env (Process.step env deployment s l) (run (Service.step env) t ls) := by
  cases l with
  | request conn req =>
    refine ⟨[], .nil, ?_⟩
    have hconn := h.conns conn
    simp only [Process.step]
    split
    · rename_i hidle
      rw [hidle] at hconn
      exact h.stay ⟨⟨[], [], []⟩, ⟨(by simp), (by simp), hconn⟩, refining_handle req⟩ (by rw [hidle]; rfl)
    · exact h
  | advance conn input =>
    have hconn := h.conns conn
    simp only [Process.step]
    split
    · rename_i f k hhandling
      rw [hhandling] at hconn
      obtain ⟨loc, hl, hrefines⟩ := hconn
      obtain ⟨t', loc', ⟨⟨ls, hone, rfl⟩, hu⟩, hshows, hl', hk⟩ := hrefines input s.store t h.store hl
      exact ⟨ls, hone.imp False.elim, h.goto hshows hu ⟨loc', hl', hk⟩ (by rw [hhandling]; rfl)⟩
    · obtain ⟨ls, hone, hserves⟩ := h.respond deployment ‹_›
      exact ⟨ls, hone.imp False.elim, hserves⟩
    · exact ⟨[], .nil, h⟩
  | hangUp conn =>
    refine ⟨[], .nil, ?_⟩
    simp only [Process.step]
    split
    · exact h
    · rename_i hstreaming
      refine h.stay trivial ?_
      cases hc : s.conns conn with
      | streaming stream => exact absurd hc (hstreaming stream)
      | idle | handling handler | closed => rfl
  | stream l =>
    by_cases hl : Process.isOfStream l = true
    · rw [Process.step, if_pos hl]
      obtain ⟨ls, hone, hserves⟩ := h.streamStep l fun i ctx req he => by
        rw [he] at hl
        cases hl
      exact ⟨ls, hone.imp False.elim, hserves⟩
    · rw [Process.step, if_neg hl]
      exact ⟨[], .nil, h⟩
  | work l =>
    by_cases hl : Process.isWork l = true
    · exact ⟨[.background l], .single fun hs => absurd hs Bool.false_ne_true, h.work hl⟩
    · refine ⟨[], .nil, ?_⟩
      rw [Process.step, if_neg hl]
      exact h
  | purgeExpiredSessions now =>
    refine ⟨[.purgeExpiredSessions now], .single fun _ => ⟨now, rfl⟩, ?_⟩
    rw [run_cons, run_nil, Process.step, Service.step]
    exact h.transact _

theorem serves_init : Serves env Process.init Service.init where
  store := ⟨rfl, rfl⟩
  workers := rfl
  conns _ := rfl
  asks _ := rfl
  living := SameStreams.living (a := AskStreams.fresh {} 0) ⟨rfl, rfl⟩ (living_fresh {} 0)

theorem Serves.run {s : Process} {t : Service} (h : Serves env s t) (deployment : Deployment)
    (ls : List Process.Label) : ∃ ls', ls'.length ≤ ls.length ∧
      Serves env (Runs.run (Process.step env deployment) s ls) (Runs.run (Service.step env) t ls') := by
  induction ls generalizing s t with
  | nil => exact ⟨[], le_refl 0, h⟩
  | cons l ls ih =>
    obtain ⟨ls₁, hone₁, h₁⟩ := h.step deployment l
    obtain ⟨ls₂, hlen₂, h₂⟩ := ih h₁
    refine ⟨ls₁ ++ ls₂, ?_, by rwa [run_append]⟩
    have hlen₁ := hone₁.length
    rw [List.length_append, List.length_cons]
    lia

/-- Whatever the process does, the service can do, in no more steps: from any run of the process the
service comes to the same database, the same counter, the same workers and the same open answers of streams. -/
theorem process_refines_service (env : Env) (deployment : Deployment) (ls : List Process.Label) :
    ∃ ls' : List Service.Label, ls'.length ≤ ls.length ∧
      let s := run (Process.step env deployment) Process.init ls
      let t := run (Service.step env) Service.init ls'
      t.db = s.store.db ∧ t.nextId = s.store.nextId ∧ t.pipeline.workers = s.workers ∧
      ∀ conn, t.asks conn = s.streams.openAsk conn := by
  obtain ⟨ls', hlen, h⟩ := serves_init.run deployment ls
  exact ⟨ls', hlen, h.store.1, h.store.2, h.workers, h.asks⟩

/-- A nonce of zeros. -/
def zeroNonce : Providers.Nonce := ⟨List.replicate 8 '0', rfl, by simp [Providers.isHex]⟩

/-- A deployment that embeds every query alike, and answers with the mock. -/
def alike : Deployment where
  settings := {}
  embedQuery _ := .ok [1]
  tracing := false
  provider _ := Providers.mockAnswerProvider zeroNonce
  repository _ := .mock zeroNonce

end KnowledgeDesk.Proofs
