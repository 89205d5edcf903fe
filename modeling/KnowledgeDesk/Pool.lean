import KnowledgeDesk.Lib.Runs
import KnowledgeDesk.Lib.SessionSettings
import KnowledgeDesk.Schema
import Mathlib.Logic.Function.Basic

/-!
# The connection pool and the row policies

`db.py`: the pool hands its connections to any number of blocks `with connect(org_id)`, one after the other,
and a block's tenant is nowhere but in the setting `app.current_org` of the connection it has. The policy
`org_isolation` reads it, on the tables that carry an `org_id`; it is the one of migration 0007 or the one
of 0008. What a table holds when a statement comes to it is the statement's own.
-/

namespace KnowledgeDesk

open Table

/-- A text as `app.current_org` holds one: empty, or that of an organisation's id. -/
abbrev OrgText := Option Uuid

/-- `hnsw.iterative_scan`. -/
inductive IterativeScan where
  | off | relaxedOrder | strictOrder
  deriving DecidableEq

/-- Why a statement fails. -/
inductive StatementError where
  | invalidTextRepresentation
  | insufficientPrivilege
  | inFailedSqlTransaction
  deriving DecidableEq

/-- A row policy, for its `using` and its `with check`: what `app.current_org` is set to, and the
`org_id` of the row. -/
abbrev Policy := Option OrgText → Uuid → Except StatementError Bool

/-- `text::uuid`. -/
def OrgText.toUuid : OrgText → Except StatementError Uuid
  | some org => .ok org
  | none => .error .invalidTextRepresentation

/-- `nullif(text, '')`. -/
def nullifEmpty : Option OrgText → Option OrgText
  | some none => none
  | text => text

/-- `org_id = text::uuid` as a row is tested for it, so that null is no. -/
def orgIdIs (orgId : Uuid) : Option OrgText → Except StatementError Bool
  | none => .ok false
  | some text => text.toUuid.map fun org => orgId == org

/-- `org_isolation` of `0007_rls.sql`. -/
def orgIsolation0007 : Policy := fun setting orgId => orgIdIs orgId setting

/-- `org_isolation` of `0008_rls_empty_guc.sql`. -/
def orgIsolation0008 : Policy := fun setting orgId => orgIdIs orgId (nullifEmpty setting)

/-- A statement on one table, with `returning *`. -/
inductive Statement (ρ : Type) where
  | select (p : ρ → Bool)
  | insert (row : ρ)
  | update (p : ρ → Bool) (f : ρ → ρ)
  | delete (p : ρ → Bool)

/-- The rows a statement returns, and those it leaves in the table. -/
abbrev Outcome (ρ : Type) := Except StatementError (List ρ × List ρ)

namespace Statement

variable {ρ : Type} (orgId : ρ → Uuid) (check : Uuid → Except StatementError Bool)

/-- The row has to pass the `with check`. -/
def withCheck (row : ρ) : Except StatementError ρ := do
  if ← check (orgId row) then .ok row else .error .insufficientPrivilege

/-- A pass over the rows: `g` is what becomes of one that passes the `using` and is in `p`, which is the row
returned and the row left. -/
def sweep (p : ρ → Bool) (g : ρ → Except StatementError (ρ × Option ρ)) :
    List ρ → Except StatementError (List ρ × List ρ)
  | [] => .ok ([], [])
  | row :: rows => do
    let visible ← check (orgId row)
    if visible && p row then
      let (returned, left) ← g row
      let (returneds, lefts) ← sweep p g rows
      .ok (returned :: returneds, left.toList ++ lefts)
    else
      let (returneds, lefts) ← sweep p g rows
      .ok (returneds, row :: lefts)

/-- A statement on the rows of a table under row-level security. -/
def execute (rows : List ρ) : Statement ρ → Outcome ρ
  | select p => sweep orgId check p (fun row => .ok (row, some row)) rows
  | insert row => (withCheck orgId check row).map fun row => ([row], rows ++ [row])
  | update p f =>
    sweep orgId check p (fun row => (withCheck orgId check (f row)).map fun row => (row, some row)) rows
  | delete p => sweep orgId check p (fun row => .ok (row, none)) rows

end Statement

/-- The status of a connection's transaction. -/
inductive TxStatus where
  | idle | inTrans | inError
  deriving DecidableEq

/-- A connection of the pool. -/
structure PooledConn where
  currentOrg : SessionSetting OrgText
  iterativeScan : SessionSetting IterativeScan
  status : TxStatus
  /-- A block has it. -/
  borrowed : Bool

/-- What can happen to a connection of the pool. -/
inductive PoolEvent (ρ : Type) where
  /-- The pool opens it. -/
  | opened
  /-- The pool hands it, when it is idle, to a block `with connect(org_id)`. -/
  | borrow (orgId : Option Uuid)
  /-- The block executes a statement on a table that holds `rows`. -/
  | execute (rows : List ρ) (statement : Statement ρ)
  /-- The block commits or rolls back, and goes on. -/
  | commit
  | rollback
  /-- The block is left, by its end or by an exception. -/
  | leave (clean : Bool)
  /-- It is closed, by whichever end. -/
  | lost

namespace PooledConn

/-- The transaction is over, by a commit or not; one that has failed is rolled back either way. -/
def endTransaction (commit : Bool) (c : PooledConn) : PooledConn :=
  if commit = true ∧ c.status ≠ .inError then
    { c with
      currentOrg := c.currentOrg.commit none
      iterativeScan := c.iterativeScan.commit .off
      status := .idle }
  else
    { c with
      currentOrg := c.currentOrg.rollback none
      iterativeScan := c.iterativeScan.rollback .off
      status := .idle }

/-- A new connection after `_configure`. -/
def configured : PooledConn :=
  let c : PooledConn := ⟨.unset, .unset, .inTrans, false⟩
  { c with iterativeScan := c.iterativeScan.set .relaxedOrder }.endTransaction true

/-- The entry into `with connect(org_id)`. -/
def connect (orgId : Option Uuid) (c : PooledConn) : PooledConn :=
  match orgId with
  | some org => { c with currentOrg := c.currentOrg.setLocal (some org), status := .inTrans, borrowed := true }
  | none => { c with borrowed := true }

section

variable {ρ : Type} (policy : Policy) (orgId : ρ → Uuid)

/-- What a statement comes to. -/
def outcome (rows : List ρ) (statement : Statement ρ) (c : PooledConn) : Outcome ρ :=
  if c.status = .inError then .error .inFailedSqlTransaction
  else statement.execute orgId (policy c.currentOrg.current) rows

/-- What an event returns to the block that has the connection. -/
def returns (c : PooledConn) : PoolEvent ρ → Option (Outcome ρ)
  | .execute rows statement => if c.borrowed then some (c.outcome policy orgId rows statement) else none
  | _ => none

/-- One step of a connection. -/
def step (c : PooledConn) : PoolEvent ρ → Option PooledConn
  | .opened => some c
  | .borrow org => if c.borrowed then some c else some (c.connect org)
  | .execute rows statement =>
    if c.borrowed then
      some { c with
        status := match c.outcome policy orgId rows statement with
          | .ok _ => .inTrans
          | .error _ => .inError }
    else some c
  | .commit => if c.borrowed then some (c.endTransaction true) else some c
  | .rollback => if c.borrowed then some (c.endTransaction false) else some c
  | .leave clean => if c.borrowed then some { c.endTransaction clean with borrowed := false } else some c
  | .lost => none

end

end PooledConn

/-- The connections of the pool. -/
abbrev Pool := Nat → Option PooledConn

namespace Pool

variable {ρ : Type} (policy : Policy) (orgId : ρ → Uuid)

/-- What a step returns. -/
def returns (s : Pool) (l : Nat × PoolEvent ρ) : Option (Outcome ρ) :=
  (s l.1).bind fun c => c.returns policy orgId l.2

/-- One step of the pool: something happens to one of its connections. -/
def step (s : Pool) (l : Nat × PoolEvent ρ) : Pool :=
  Function.update s l.1 <| match s l.1, l.2 with
    | none, .opened => some .configured
    | none, _ => none
    | some c, event => c.step policy orgId event

/-- A pool without connections. -/
def start : Pool := fun _ => none

end Pool

/-! ## What the pool is for -/

/-- A block `with connect(org_id)`, which has its tenant from its entry to the end of its first
transaction. -/
structure ConnectBlock where
  orgId : Option Uuid
  failed : Bool
  deriving DecidableEq

/-- A connection: whether it has had a tenant before, and the block that has it now. -/
structure Slot where
  recycled : Bool
  block : Option ConnectBlock
  deriving DecidableEq

namespace ConnectBlock

variable {ρ : Type} (orgId : ρ → Uuid)

/-- The rows a block can see, and may leave. -/
def sees (b : ConnectBlock) (row : ρ) : Bool := b.orgId.any fun org => orgId row == org

/-- A statement on the rows that the block can see. -/
def outcome (rows : List ρ) (b : ConnectBlock) : Statement ρ → Outcome ρ
  | .select p => .ok (rows.filter fun row => b.sees orgId row && p row, rows)
  | .insert row => if b.sees orgId row then .ok ([row], rows ++ [row]) else .error .insufficientPrivilege
  | .update p f =>
    let chosen := fun row => b.sees orgId row && p row
    if ∀ row ∈ rows, chosen row = true → b.sees orgId (f row) = true then
      .ok ((rows.filter chosen).map f, updateWhere chosen f rows)
    else .error .insufficientPrivilege
  | .delete p =>
    let chosen := fun row => b.sees orgId row && p row
    .ok (rows.filter chosen, deleteWhere chosen rows)

end ConnectBlock

/-- The statement tests a row. -/
def Statement.tests {ρ : Type} (rows : List ρ) : Statement ρ → Bool
  | .insert _ => true
  | _ => !rows.isEmpty

namespace Slot

/-- What a statement of its block comes to. Where the policy is `strict` it raises for a block without a
tenant on a recycled connection. -/
def outcome {ρ : Type} (strict : Bool) (orgId : ρ → Uuid) (rows : List ρ) (statement : Statement ρ)
    (slot : Slot) (b : ConnectBlock) : Outcome ρ :=
  if b.failed then .error .inFailedSqlTransaction
  else if strict && slot.recycled && b.orgId.isNone && statement.tests rows then
    .error .invalidTextRepresentation
  else b.outcome orgId rows statement

/-- The transaction of its block is over. -/
def endTransaction (slot : Slot) (b : ConnectBlock) (next : Option ConnectBlock) : Slot :=
  ⟨slot.recycled || b.orgId.isSome, next⟩

section

variable {ρ : Type} (strict : Bool) (orgId : ρ → Uuid)

/-- What an event returns to the block. -/
def returns (slot : Slot) : PoolEvent ρ → Option (Outcome ρ)
  | .execute rows statement => slot.block.map fun b => slot.outcome strict orgId rows statement b
  | _ => none

/-- One step of a connection. -/
def step (slot : Slot) (event : PoolEvent ρ) : Option Slot :=
  match slot.block, event with
  | _, .lost => none
  | none, .borrow org => some { slot with block := some ⟨org, false⟩ }
  | some b, .execute rows statement =>
    some { slot with
      block := some { b with
        failed := match slot.outcome strict orgId rows statement b with
          | .ok _ => false
          | .error _ => true } }
  | some b, .commit | some b, .rollback => some (slot.endTransaction b (some ⟨none, false⟩))
  | some b, .leave _ => some (slot.endTransaction b none)
  | _, _ => some slot

end

end Slot

abbrev Blocks := Nat → Option Slot

namespace Blocks

variable {ρ : Type} (strict : Bool) (orgId : ρ → Uuid)

/-- What a step returns. -/
def returns (s : Blocks) (l : Nat × PoolEvent ρ) : Option (Outcome ρ) :=
  (s l.1).bind fun slot => slot.returns strict orgId l.2

/-- One step of the blocks. -/
def step (s : Blocks) (l : Nat × PoolEvent ρ) : Blocks :=
  Function.update s l.1 <| match s l.1, l.2 with
    | none, .opened => some ⟨false, none⟩
    | none, _ => none
    | some slot, event => slot.step strict orgId event

def start : Blocks := fun _ => none

end Blocks

end KnowledgeDesk
