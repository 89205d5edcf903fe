import KnowledgeDesk.Proofs.ChunkingProofs
import KnowledgeDesk.Proofs.JobsProofs
import KnowledgeDesk.Tenancy

/-!
# Reading a document back

`get_document` joins the chunks as they are. Two windows of `chunk_text` share the characters of their
overlap, which are then read twice; the text comes back, up to white space, iff there is nothing but
white space where two windows meet.
-/

open PyText Table

namespace KnowledgeDesk.Proofs

variable {env : Env} {s : List Char} {size step : Nat}

/-- Where the window at `start` and the next one meet: what they share, or what is left out between
them. -/
def seam (s : List Char) (size step start : Nat) : List Char :=
  window s (max size step - min size step) (start + min size step)

/-- Nothing but white space where two windows meet. -/
def BlankSeams (s : List Char) (size step : Nat) : Prop :=
  ∀ k, k * step + size < s.length → ink (seam s size step (k * step)) = []

/-- What the windows hold, one after the other. -/
def windowsInk (s : List Char) (size : Nat) (starts : List Nat) : List Char :=
  starts.flatMap fun p => ink (window s size p)

/-- Overlapping windows share their seam. -/
theorem ink_of_overlap (hle : step ≤ size) (start : Nat) :
    ink (window s size start) = ink (window s step start) ++ ink (seam s size step start) ∧
      ink (s.drop start) = ink (window s step start) ++ ink (s.drop (start + step)) := by
  constructor
  · rw [seam, max_eq_left hle, min_eq_right hle, ← ink_append, ← window_append]
    congr 2
    omega
  · rw [← ink_append, ← drop_eq_window_append]

/-- Windows apart leave their seam out. -/
theorem ink_of_gap (hle : size ≤ step) (start : Nat) :
    ink (s.drop start) =
      ink (window s size start) ++ (ink (seam s size step start) ++ ink (s.drop (start + step))) := by
  have hnext : start + step = start + size + (step - size) := by omega
  rw [seam, max_eq_right hle, min_eq_left hle, hnext, ← ink_append, ← drop_eq_window_append, ← ink_append,
    ← drop_eq_window_append]

theorem le_windowsInk (hstep : 0 < step) (hle : step ≤ size) (fuel start : Nat)
    (hfuel : s.length ≤ start + fuel) : (ink (s.drop start)).length ≤
      (windowsInk s size (windowStarts s.length size step fuel start)).length := by
  refine @windowStarts_induction size step s.length
    (fun start starts => (ink (s.drop start)).length ≤ (windowsInk s size starts).length)
    hstep ?_ ?_ ?_ fuel start hfuel
  · intro start hend
    rw [List.drop_eq_nil_of_le hend, ink_nil]
    exact Nat.zero_le _
  · intro start _ hlast
    simp [windowsInk, window_of_end hlast]
  · intro fuel start _ _ ih
    obtain ⟨hwin, hdrop⟩ := ink_of_overlap (s := s) hle start
    rw [windowsInk, List.flatMap_cons, hwin, hdrop]
    simp only [List.length_append]
    rw [windowsInk] at ih
    omega

theorem windowsInk_le (hstep : 0 < step) (hle : size ≤ step) (fuel start : Nat)
    (hfuel : s.length ≤ start + fuel) :
    (windowsInk s size (windowStarts s.length size step fuel start)).length ≤
      (ink (s.drop start)).length := by
  refine @windowStarts_induction size step s.length
    (fun start starts => (windowsInk s size starts).length ≤ (ink (s.drop start)).length)
    hstep ?_ ?_ ?_ fuel start hfuel
  · intro start _
    exact Nat.zero_le _
  · intro start _ hlast
    simp [windowsInk, window_of_end hlast]
  · intro fuel start _ _ ih
    rw [windowsInk, List.flatMap_cons, ink_of_gap hle start]
    simp only [List.length_append]
    rw [windowsInk] at ih
    omega

/-- The windows from `start` on hold the rest of the text iff the seams from there on are blank. -/
theorem windowsInk_eq_iff (hstep : 0 < step) (fuel start : Nat) (hfuel : s.length ≤ start + fuel) :
    windowsInk s size (windowStarts s.length size step fuel start) = ink (s.drop start) ↔
      ∀ k, start + k * step + size < s.length → ink (seam s size step (start + k * step)) = [] := by
  refine @windowStarts_induction size step s.length
    (fun start starts => windowsInk s size starts = ink (s.drop start) ↔
      ∀ k, start + k * step + size < s.length → ink (seam s size step (start + k * step)) = [])
    hstep ?_ ?_ ?_ fuel start hfuel
  · intro start hend
    rw [List.drop_eq_nil_of_le hend]
    exact ⟨fun _ k hk => by omega, fun _ => rfl⟩
  · intro start _ hlast
    refine ⟨fun _ k hk => by omega, fun _ => ?_⟩
    rw [windowsInk, List.flatMap_singleton, window_of_end hlast]
  · intro fuel start hmore hfuel ih
    have hseams : (∀ k, start + k * step + size < s.length → ink (seam s size step (start + k * step)) = []) ↔
        ink (seam s size step start) = [] ∧
          ∀ k, start + step + k * step + size < s.length →
            ink (seam s size step (start + step + k * step)) = [] := by
      have hshift : ∀ k, start + (k + 1) * step = start + step + k * step := fun k => by
        rw [Nat.succ_mul]
        omega
      constructor
      · intro h
        refine ⟨by simpa using h 0 (by omega), fun k hk => ?_⟩
        rw [← hshift] at hk ⊢
        exact h (k + 1) hk
      · rintro ⟨h0, h⟩ k hk
        cases k with
        | zero => simpa using h0
        | succ k =>
          rw [hshift] at hk ⊢
          exact h k hk
    rw [hseams, ← ih, windowsInk, List.flatMap_cons, ← windowsInk]
    by_cases hle : step ≤ size
    · -- the seam is read twice
      obtain ⟨hwin, hdrop⟩ := ink_of_overlap (s := s) hle start
      have hlen := le_windowsInk (s := s) hstep hle fuel (start + step) hfuel
      rw [hwin, hdrop, List.append_assoc, List.append_cancel_left_eq]
      constructor
      · intro h
        have hseam : ink (seam s size step start) = [] := by
          have := congrArg List.length h
          rw [List.length_append] at this
          exact List.eq_nil_of_length_eq_zero (by omega)
        rw [hseam, List.nil_append] at h
        exact ⟨hseam, h⟩
      · rintro ⟨hseam, h⟩
        rw [hseam, h, List.nil_append]
    · -- the seam is not read
      have hlen := windowsInk_le (s := s) hstep (Nat.le_of_not_le hle) fuel (start + step) hfuel
      rw [ink_of_gap (Nat.le_of_not_le hle) start, List.append_cancel_left_eq]
      constructor
      · intro h
        have hseam : ink (seam s size step start) = [] := by
          have := congrArg List.length h
          rw [List.length_append] at this
          exact List.eq_nil_of_length_eq_zero (by omega)
        rw [hseam, List.nil_append] at h
        exact ⟨hseam, h⟩
      · rintro ⟨hseam, h⟩
        rw [hseam, h, List.nil_append]

/-! ## The chunks of a stored document -/

/-- `size` and `step` of `chunk_text` as configured. -/
def configuredSize (env : Env) : Nat := env.settings.chunkSize.toNat

def configuredStep (env : Env) : Nat := (env.settings.chunkSize - env.settings.chunkOverlap).toNat

theorem chunkText_configured {text : String} {chunks : List String} (h : chunkText env text = .ok chunks) :
    0 < configuredSize env ∧ 0 < configuredStep env ∧ chunks.map String.toList = chunkWindows (strip text.toList)
      (configuredSize env) (configuredStep env) (strip text.toList).length 0 := by
  unfold chunkText at h
  simp only [Option.getD_none] at h
  by_cases hsize : env.settings.chunkSize ≤ 0
  · rw [if_pos hsize] at h
    cases h
  by_cases hover : env.settings.chunkSize ≤ env.settings.chunkOverlap
  · rw [if_neg hsize, if_pos hover] at h
    cases h
  rw [if_neg hsize, if_neg hover] at h
  obtain rfl := Except.ok.inj h
  refine ⟨by unfold configuredSize; omega, by unfold configuredStep; omega, ?_⟩
  rw [List.map_map]
  have hid : String.toList ∘ String.ofList = id := funext fun _ => String.toList_ofList
  rw [hid, List.map_id]
  rfl

/-- The chunks joined hold what the windows hold. -/
theorem ink_joined {text : String} {chunks : List String} (h : chunkText env text = .ok chunks) :
    ink ("\n".intercalate chunks).toList = windowsInk (strip text.toList) (configuredSize env)
      (examined (strip text.toList) (configuredSize env) (configuredStep env)) := by
  rw [String.toList_intercalate, ink_intercalate (by decide), (chunkText_configured h).2.2, chunkWindows_eq,
    ← examined, windowsInk]
  induction examined (strip text.toList) (configuredSize env) (configuredStep env) with
  | nil => rfl
  | cons p starts ih =>
    rw [List.map_cons, List.flatMap_cons, ← ih, ← ink_strip (window _ _ p), List.filter_cons]
    cases hp : strip (window (strip text.toList) (configuredSize env) p) with
    | nil => simp
    | cons c w => simp

/-- A text that is not blank has a chunk: the first window has its first character. -/
theorem chunks_ne_nil {text : String} {chunks : List String} (h : chunkText env text = .ok chunks)
    (hink : ink text.toList ≠ []) : chunks ≠ [] := by
  obtain ⟨hsize, -, hchunks⟩ := chunkText_configured h
  have hne : strip text.toList ≠ [] := mt strip_eq_nil_iff.1 hink
  obtain ⟨c, s, hs⟩ := List.exists_cons_of_ne_nil hne
  have hc : isSpace c = false := (trimmed_strip text.toList).1 c (by rw [hs]; rfl)
  have hfirst : c ∈ ink (window (strip text.toList) (configuredSize env) 0) := by
    refine mem_ink.2 ⟨List.mem_of_getElem? (i := 0) ?_, hc⟩
    rw [getElem?_window hsize, hs]
    rfl
  have hzero : 0 ∈ windowStarts (strip text.toList).length (configuredSize env) (configuredStep env)
      (strip text.toList).length 0 := by
    rw [hs, List.length_cons]
    unfold windowStarts
    rw [if_neg (Nat.not_le.2 (Nat.succ_pos _))]
    exact List.mem_cons_self
  have hmem := mem_chunkWindows.2 ⟨0, hzero, rfl, mt strip_eq_nil_iff.1 (List.ne_nil_of_mem hfirst)⟩
  rw [← hchunks] at hmem
  exact fun hnil => List.not_mem_nil (by rwa [hnil] at hmem)

/-- Up to white space the joined chunks are the text iff its seams are blank. -/
theorem joined_iff {text : String} {chunks : List String} (h : chunkText env text = .ok chunks) :
    ink ("\n".intercalate chunks).toList = ink text.toList ↔
      BlankSeams (strip text.toList) (configuredSize env) (configuredStep env) := by
  rw [ink_joined h, ← ink_strip text.toList, examined]
  have hiff := @windowsInk_eq_iff (strip text.toList) (configuredSize env) (configuredStep env)
    (chunkText_configured h).2.1 (strip text.toList).length 0 (by omega)
  rw [List.drop_zero] at hiff
  rw [hiff, BlankSeams]
  simp only [Nat.zero_add]

/-! ## The write and the read -/

/-- The rows a completed run wrote for the document it read are what the query finds. -/
theorem visibleDocument_of_written {ctx : AuthContext} {documentId : Uuid} {doc : Document} {db db' : Db}
    {rows : List Chunk} {now : Time} {ps : List String}
    (hread : readDocument ctx.orgId documentId db = some doc) (hrows : RowsOf env ctx.orgId doc rows)
    (hne : rows ≠ []) (hacl : anyOf doc.acl ps = true)
    (hwrite : writeDocument ctx.orgId documentId rows now db = .ok ((), db')) :
    visibleDocument ctx ps documentId db' =
      some ⟨doc.id, doc.path, .ingested, now, "\n".intercalate (rows.map Chunk.text), rows.length⟩ := by
  obtain ⟨-, hid, -⟩ := readDocument_some hread
  obtain ⟨-, rfl⟩ := writeDocument_ok hwrite
  have hdoc : (updateWhere (rls ctx.orgId Document.orgId fun d => d.id == documentId) (·.ingest now)
      db.documents).find? (rls ctx.orgId Document.orgId fun d =>
        d.id == documentId && d.orgId == ctx.orgId && d.status == .ingested) = some (doc.ingest now) := by
    have hsame : ((rls ctx.orgId Document.orgId fun d =>
        d.id == documentId && d.orgId == ctx.orgId && d.status == .ingested) ∘ fun d =>
        if (rls ctx.orgId Document.orgId fun d => d.id == documentId) d = true then d.ingest now else d) =
        rls ctx.orgId Document.orgId fun d => d.id == documentId && d.orgId == ctx.orgId := by
      funext d
      by_cases horg : d.orgId = ctx.orgId
      · by_cases hd : d.id = documentId <;> simp [rls, Document.ingest, horg, hd]
      · have hother : (d.orgId == ctx.orgId) = false := beq_eq_false_iff_ne.2 horg
        rw [Function.comp_apply, if_neg (by simp [rls, hother])]
        simp only [rls, hother, Bool.false_and]
    rw [updateWhere, List.find?_map, hsame, show List.find? _ _ = _ from hread, Option.map_some, if_pos]
    simp [rls, (readDocument_some hread).2.2, hid]
  have hchunks : (deleteWhere (rls ctx.orgId Chunk.orgId fun c => c.documentId == documentId) db.chunks ++
      rows).filter (rls ctx.orgId Chunk.orgId fun c =>
        c.documentId == (doc.ingest now).id && anyOf c.acl ps) = rows := by
    rw [List.filter_append, List.filter_eq_nil_iff.2, List.filter_eq_self.2, List.nil_append]
    · intro c hc
      obtain ⟨horg, hof, hperm⟩ := hrows.owner c hc
      simp [rls, horg, hof, hperm, hacl, Document.ingest]
    · intro c hc
      have hkept := (mem_deleteWhere.1 hc).2
      simp only [rls, Document.ingest, hid, Bool.and_eq_true, not_and]
      intro horg hof
      simp [rls, horg, hof] at hkept
  have horder : orderBy (fun a b => decide (a.ordinal ≤ b.ordinal)) rows = rows := by
    refine List.Pairwise.insertionSort_eq ?_
    have hsorted : (rows.map Chunk.ordinal).Pairwise (· ≤ ·) := hrows.ordinals ▸ List.pairwise_le_range
    exact (List.pairwise_map.1 hsorted).imp fun h => by simpa using h
  simp only [visibleDocument, hdoc, Option.bind_some, hchunks, horder]
  rw [if_neg (by simpa using hne)]
  rfl

/-- A completed `process_ingest_document` wrote the chunks of the content it read. -/
theorem processIngest_ok {embed : List String → Except Err (List Embedding)} {orgId documentId : Uuid}
    {payload : Payload} {now : Time} {doc : Document} {db db' : Db}
    (hid : payload.lookup "document_id" = some documentId)
    (hread : readDocument orgId documentId db = some doc) (hlive : doc.status ≠ .deleted)
    (hrun : processIngestDocument env embed orgId payload now db = (.ok (), db')) :
    ∃ rows, RowsOf env orgId doc rows ∧ writeDocument orgId documentId rows now db = .ok ((), db') := by
  simp only [processIngestDocument, hid, Proc.bind_apply, Proc.read_apply, hread, if_neg hlive] at hrun
  cases hrows : embedDocument env embed orgId doc with
  | error e => simp [hrows] at hrun
  | ok rows =>
    rw [hrows] at hrun
    cases hwrite : writeDocument orgId documentId rows now db with
    | error e =>
      simp [Proc.transact_of_error hwrite] at hrun
    | ok r =>
      obtain ⟨u, db₁⟩ := r
      simp only [Proc.transact_of_ok hwrite, Prod.mk.injEq] at hrun
      exact ⟨rows, embedDocument_ok hrows, by rw [hwrite, ← hrun.2]⟩

/-- What a permitted reader gets once `process_ingest_document` has completed. -/
theorem getDocument_of_ingested {embed : List String → Except Err (List Embedding)} {ctx : AuthContext}
    {documentId : Uuid} {payload : Payload} {now : Time} {doc : Document} {db db' : Db}
    (hid : payload.lookup "document_id" = some documentId)
    (hread : readDocument ctx.orgId documentId db = some doc) (hlive : doc.status ≠ .deleted)
    (hink : ∃ c ∈ doc.content.toList, isSpace c = false)
    (hrun : processIngestDocument env embed ctx.orgId payload now db = (.ok (), db'))
    (hacl : anyOf doc.acl (principalsOf ctx db') = true) :
    ∃ text chunks, getDocument ctx documentId db' = (.ok text, db') ∧
      chunkText env doc.content = .ok chunks ∧ text.content = "\n".intercalate chunks := by
  obtain ⟨rows, hrows, hwrite⟩ := processIngest_ok hid hread hlive hrun
  have hne : rows ≠ [] := by
    obtain ⟨c, hc, hspace⟩ := hink
    have := chunks_ne_nil hrows.texts (List.ne_nil_of_mem (mem_ink.2 ⟨hc, hspace⟩))
    exact fun hnil => this (by rw [hnil, List.map_nil])
  have hfound := visibleDocument_of_written hread hrows hne hacl hwrite
  refine ⟨⟨doc.id, doc.path, .ingested, now, "\n".intercalate (rows.map Chunk.text), rows.length⟩, _, ?_,
    hrows.texts, rfl⟩
  simp only [getDocument, principals, Proc.bind_apply, Proc.read_apply, hfound]
  rfl

/-- Reading a document gives back the document, up to white space, iff its windows meet in nothing but
white space. -/
theorem document_reads_back_iff (env : Env) (embed : List String → Except Err (List Embedding))
    (ctx : AuthContext) (documentId : Uuid) (payload : Payload) (now : Time) (doc : Document) (db db' : Db)
    (hid : payload.lookup "document_id" = some documentId)
    (hread : readDocument ctx.orgId documentId db = some doc) (hlive : doc.status ≠ .deleted)
    (hink : ∃ c ∈ doc.content.toList, isSpace c = false)
    (hrun : processIngestDocument env embed ctx.orgId payload now db = (.ok (), db'))
    (hacl : anyOf doc.acl (principalsOf ctx db') = true) :
    ∃ text, getDocument ctx documentId db' = (.ok text, db') ∧
      (ink text.content.toList = ink doc.content.toList ↔
        BlankSeams (strip doc.content.toList) (configuredSize env) (configuredStep env)) := by
  obtain ⟨text, chunks, hget, hchunks, htext⟩ := getDocument_of_ingested hid hread hlive hink hrun hacl
  exact ⟨text, hget, by rw [htext]; exact joined_iff hchunks⟩

/-- An uploaded document, and the database that has it alone. -/
def uploadedDocument (content : String) : Document :=
  ⟨10, 1, "upload", "a.txt", content, "", ["public-to-org"], [], .pending, 1, 0⟩

def uploadedDb (content : String) : Db :=
  { orgs := [⟨1, "acme", "Acme"⟩], documents := [uploadedDocument content] }

/-- A member of the org, and an embedder. -/
def reader : AuthContext := ⟨2, 1, .member, "reader@acme.test"⟩

def zeroEmbedder (texts : List String) : Except Err (List Embedding) := .ok (texts.map fun _ => [])

theorem ingest_uploaded (content : String) : ∃ db', processIngestDocument (asciiEnv id) zeroEmbedder
    reader.orgId [("document_id", 10)] 5 (uploadedDb content) = (.ok (), db') := by
  have hread : readDocument reader.orgId 10 (uploadedDb content) = some (uploadedDocument content) := rfl
  have hchunks : ∃ texts, chunkText (asciiEnv id) content = .ok texts := by
    unfold chunkText
    exact ⟨_, rfl⟩
  obtain ⟨texts, htexts⟩ := hchunks
  have hrows : ∃ rows, embedDocument (asciiEnv id) zeroEmbedder reader.orgId (uploadedDocument content) =
      .ok rows := by
    simp only [embedDocument, uploadedDocument, htexts, bind, Except.bind]
    by_cases he : texts.isEmpty = true
    · rw [if_pos he, List.isEmpty_iff.1 he]
      exact ⟨_, rfl⟩
    · rw [if_neg he]
      simp only [zeroEmbedder, chunkRows]
      rw [if_pos (List.length_map ..).symm]
      exact ⟨_, rfl⟩
  obtain ⟨rows, hrows⟩ := hrows
  have hlive : (uploadedDocument content).status ≠ .deleted := by simp [uploadedDocument]
  have hwrite : ∃ db', writeDocument reader.orgId 10 rows 5 (uploadedDb content) = .ok ((), db') := by
    have href : (rows.isEmpty || (uploadedDb content).hasDocument 10) = true := by
      simp [Db.hasDocument, uploadedDb, uploadedDocument]
    simp only [writeDocument, href, Db.references, if_true]
    exact ⟨_, rfl⟩
  obtain ⟨db', hwrite⟩ := hwrite
  refine ⟨db', ?_⟩
  have hid : List.lookup "document_id" [("document_id", 10)] = some 10 := by decide
  simp only [processIngestDocument, hid, Proc.bind_apply, Proc.read_apply, hread, if_neg hlive, hrows,
    Proc.transact_of_ok hwrite]

/-- The reader may see the document: it is public to the org. -/
theorem reader_permitted (content : String) (db : Db) :
    anyOf (uploadedDocument content).acl (principalsOf reader db) = true := by
  simp [anyOf, principalsOf, uploadedDocument]

/-- A document of one window comes back. -/
theorem short_document_reads_back : ∃ db', processIngestDocument (asciiEnv id) zeroEmbedder reader.orgId
      [("document_id", 10)] 5 (uploadedDb "alpha beta") = (.ok (), db') ∧
    ∃ text, getDocument reader 10 db' = (.ok text, db') ∧
      ink text.content.toList = ink "alpha beta".toList := by
  obtain ⟨db', hrun⟩ := ingest_uploaded "alpha beta"
  obtain ⟨text, hget, hiff⟩ := document_reads_back_iff (asciiEnv id) zeroEmbedder reader 10
    [("document_id", 10)] 5 (uploadedDocument "alpha beta") (uploadedDb "alpha beta") db' (by decide) rfl
    (by simp [uploadedDocument]) ⟨'a', by decide, by decide⟩ hrun
    (reader_permitted "alpha beta" db')
  refine ⟨db', hrun, text, hget, hiff.2 fun k hk => ?_⟩
  have hlen := (length_strip_le "alpha beta".toList).trans_eq (by decide : _ = 10)
  have hsize : configuredSize (asciiEnv id) = 1000 := rfl
  rw [hsize] at hk
  exact absurd (Nat.lt_of_lt_of_le hk hlen) (by omega)

/-- A document one character longer than a window, at the default size and overlap. -/
def longContent : String := .ofList (List.replicate 1001 'a')

/-- The hundred and fifty characters the two windows share are read twice. -/
theorem long_document_reads_overlap_twice : ∃ db', processIngestDocument (asciiEnv id) zeroEmbedder
      reader.orgId [("document_id", 10)] 5 (uploadedDb longContent) = (.ok (), db') ∧
    ∃ text, getDocument reader 10 db' = (.ok text, db') ∧
      ink text.content.toList ≠ ink longContent.toList := by
  have hlong : longContent.toList = List.replicate 1001 'a' := String.toList_ofList
  obtain ⟨db', hrun⟩ := ingest_uploaded longContent
  have hink : ∃ c ∈ longContent.toList, isSpace c = false := by
    refine ⟨'a', ?_, by decide⟩
    rw [hlong]
    exact List.mem_replicate.2 ⟨by decide, rfl⟩
  obtain ⟨text, chunks, hget, hchunks, htext⟩ := @getDocument_of_ingested (asciiEnv id) zeroEmbedder reader
    10 _ 5 (uploadedDocument longContent) _ db' (by decide) rfl (by simp [uploadedDocument]) hink hrun
    (reader_permitted longContent db')
  refine ⟨db', hrun, text, hget, fun he => ?_⟩
  rw [htext] at he
  have hblank := (joined_iff hchunks).1 he 0
  have hstrip : strip longContent.toList = List.replicate 1001 'a' := by
    rw [strip_of_all_ink, hlong]
    intro c hc
    rw [hlong] at hc
    rw [List.eq_of_mem_replicate hc]
    decide
  have hsize : configuredSize (asciiEnv id) = 1000 ∧ configuredStep (asciiEnv id) = 850 := ⟨rfl, rfl⟩
  have hshared : seam (List.replicate 1001 'a') 1000 850 (0 * 850) = List.replicate 150 'a' := by
    rw [seam, window, List.drop_replicate, List.take_replicate]
    congr 1
  have hcontent : strip (uploadedDocument longContent).content.toList = List.replicate 1001 'a' := hstrip
  rw [hcontent, hsize.1, hsize.2, hshared, List.length_replicate] at hblank
  have hmem : 'a' ∈ ink (List.replicate 150 'a') :=
    mem_ink.2 ⟨List.mem_replicate.2 ⟨by decide, rfl⟩, by decide⟩
  rw [hblank (by omega)] at hmem
  cases hmem

end KnowledgeDesk.Proofs
