import KnowledgeDesk.Lib.Paging
import KnowledgeDesk.Tenancy

/-!
# The export, whatever order its queries answer in

`list_members` orders by email and `list_documents` by path. The database returns rows the column does not
tell apart in any order, anew for every query; here that order is an argument, and so is the page size.
-/

namespace KnowledgeDesk

open Table

variable (env : Env) (ctx : AuthContext)

/-- The rows of `list_members`, in no order yet. -/
def memberRows (db : Db) : List MemberRow :=
  (db.memberships.filter fun m => m.orgId == ctx.orgId).filterMap fun m =>
    (db.users.find? fun u => u.id == m.userId).map fun u => ⟨u.id, u.email, m.role, m.createdAt⟩

/-- The rows of `list_documents`, in no order yet. -/
def documentRows (db : Db) : List DocumentRow :=
  (db.documents.filter (rls ctx.orgId Document.orgId fun d => d.orgId == ctx.orgId)).map fun d =>
    { id := d.id, path := d.path, source := d.source, status := d.status, contentHash := d.contentHash
      piiTypes := d.piiTypes, acl := d.acl, updatedAt := d.updatedAt
      chunkCount := (db.chunks.filter (rls ctx.orgId Chunk.orgId fun c => c.documentId == d.id)).length }

/-- `order by u.email`. -/
def byEmail (a b : MemberRow) : Bool := env.collate a.email b.email

/-- `order by d.path`. -/
def byPath (a b : DocumentRow) : Bool := env.collate a.path b.path

/-- The order each query of a sweep returns its rows in. -/
structure RowOrders where
  members : Nat → List MemberRow → List MemberRow
  documents : Nat → List DocumentRow → List DocumentRow

/-- The orders are those `order by` asks for. -/
structure RowOrders.Lawful (orders : RowOrders) : Prop where
  members : ∀ query rows, Paging.Listing (byEmail env) rows (orders.members query rows)
  documents : ∀ query rows, Paging.Listing (byPath env) rows (orders.documents query rows)

/-- `list_members`, in an order. -/
def listMembersIn (order : List MemberRow → List MemberRow) (limit offset : Nat) : Scope (List MemberRow) :=
  Proc.read fun db => page limit offset (order (memberRows ctx db))

/-- `list_documents`, in an order. -/
def listDocumentsIn (order : List DocumentRow → List DocumentRow) (limit offset : Nat) :
    Scope (List DocumentRow) :=
  Proc.read fun db => page limit offset (order (documentRows ctx db))

/-- `_sweep` with pages of `size`, where `fetch` is told the number of its query. Without fuel for its last
page it returns nothing. -/
def sweepPages {α : Type} (size : Nat) (fetch : Nat → Nat → Nat → Scope (List α)) :
    Nat → Nat → List α → Scope (Option (List α))
  | 0, _, _ => return none
  | fuel + 1, query, rows => do
    let page ← fetch query size rows.length
    if page.length < size then return some (rows ++ page)
    else sweepPages size fetch fuel (query + 1) (rows ++ page)

/-- `export` with a `_SWEEP_PAGE`. -/
def exportPages (size : Nat) (orders : RowOrders) : Scope (Option Export) := do
  gate (requireRole ctx .admin)
  let members ← sweepPages size (fun query => listMembersIn ctx (orders.members query))
    ((← countMembers ctx) + 1) 0 []
  let documents ← sweepPages size (fun query => listDocumentsIn ctx (orders.documents query))
    ((← countDocuments ctx) + 1) 0 []
  return do
    let members ← members
    let documents ← documents
    return { members, documents }

/-- The orders of a database that sorts stably. -/
def stableOrders : RowOrders := ⟨fun _ => orderBy (byEmail env), fun _ => orderBy (byPath env)⟩

end KnowledgeDesk
