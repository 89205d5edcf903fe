import KnowledgeDesk.Config

/-!
# Roles and acting contexts

`auth.role_at_least` and `tenancy.AuthContext`. The request schemas bound a role to the three of the
table, so a rank exists for every role.
-/

namespace KnowledgeDesk

instance : ToString Role where
  toString
    | .member => "member"
    | .admin => "admin"
    | .owner => "owner"

/-- `ROLE_RANK`. -/
def Role.rank : Role → Nat
  | .member => 1
  | .admin => 2
  | .owner => 3

/-- `role_at_least`. -/
def roleAtLeast (actual required : Role) : Bool := required.rank ≤ actual.rank

/-- Who is acting, and in which org. -/
structure AuthContext where
  userId : Uuid
  orgId : Uuid
  role : Role
  email : String
  deriving DecidableEq

/-- The gate of `TenantScope.require_role`. -/
def requireRole (ctx : AuthContext) (minimum : Role) : Except Err Unit :=
  if roleAtLeast ctx.role minimum then .ok ()
  else .error (.forbidden s!"requires role {minimum}, caller is {ctx.role}")

/-- The gate of `TenantScope.require_can_grant`: admin or better, and no role above the caller's. -/
def requireCanGrant (ctx : AuthContext) (role : Role) : Except Err Unit := do
  requireRole ctx .admin
  if roleAtLeast ctx.role role then .ok ()
  else .error (.forbidden s!"cannot grant role {role}, caller is {ctx.role}")

end KnowledgeDesk
