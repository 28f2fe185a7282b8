import Cloudscale.Domain.Errors
import Mathlib.Tactic.Common

/-!
# Account authorization

A principal may act on the accounts its token names, on the accounts the registry
records it as the owner of, and with the admin scope on all.  `authorizeAccount`
is the check of the routes that command an account, and `mayRead` the predicate of
the routes that show one; `authorizeAccount_eq_ok` says that they agree.
-/

namespace Cloudscale

/-- What a route raises: an `HTTPException`, or an exception that passes through. -/
inductive RouteError
  | http (statusCode : Int) (detail : String)
  | raised (error : PyError)
  deriving DecidableEq

def adminScope : String := "accounts:admin"

/-- Verified caller identity and the accounts it may act on. -/
structure Principal where
  issuer : String
  subject : String
  accountIds : List String
  scopes : List String
  deriving DecidableEq

def Principal.mayAccess (principal : Principal) (accountId : String) : Prop :=
  adminScope ∈ principal.scopes ∨ accountId ∈ principal.accountIds

instance (principal : Principal) (accountId : String) : Decidable (principal.mayAccess accountId) :=
  inferInstanceAs (Decidable (_ ∨ _))

/-- `owner_of` of the account registry. -/
abbrev OwnerOf := String → Option String

/-- The registry, if there is one, records the principal as the owner. -/
def Principal.owns (principal : Principal) (registry : Option OwnerOf) (accountId : String) : Prop :=
  registry.bind (fun ownerOf => ownerOf accountId) = some principal.subject

instance (principal : Principal) (registry : Option OwnerOf) (accountId : String) :
    Decidable (principal.owns registry accountId) :=
  inferInstanceAs (Decidable (_ = _))

/-- `RouteContext.may_read`. -/
def mayRead (registry : Option OwnerOf) (principal : Principal) (accountId : String) : Prop :=
  principal.mayAccess accountId ∨ principal.owns registry accountId

instance (registry : Option OwnerOf) (principal : Principal) (accountId : String) :
    Decidable (mayRead registry principal accountId) :=
  inferInstanceAs (Decidable (_ ∨ _))

def forbidden : RouteError := .http 403 "principal is not authorized for this account"

/-- Raise 403 unless the principal may act on the account. -/
def authorizeAccount (principal : Principal) (accountId : String) (registry : Option OwnerOf) :
    Except RouteError Unit :=
  if principal.mayAccess accountId then .ok ()
  else if principal.owns registry accountId then .ok ()
  else .error forbidden

theorem authorizeAccount_eq_ok {principal : Principal} {accountId : String}
    {registry : Option OwnerOf} {u : Unit} :
    authorizeAccount principal accountId registry = .ok u ↔
      mayRead registry principal accountId := by
  rw [authorizeAccount, mayRead]
  by_cases haccess : principal.mayAccess accountId
  · rw [if_pos haccess]
    exact ⟨fun _ => Or.inl haccess, fun _ => rfl⟩
  · rw [if_neg haccess]
    by_cases howns : principal.owns registry accountId
    · rw [if_pos howns]
      exact ⟨fun _ => Or.inr howns, fun _ => rfl⟩
    · rw [if_neg howns]
      exact ⟨(fun h => nomatch h), fun h => absurd h (not_or_intro haccess howns)⟩

end Cloudscale
