import Cloudscale.Lib.Checked

/-!
# What a call raises

The subclasses of `DomainError` with their codes, and the other exceptions the
modelled calls raise.  A decision catches `DomainError` and nothing else, so the
two are told apart in the type.
-/

namespace Cloudscale

/-- The subclasses of `DomainError`. -/
inductive DomainErrorKind
  | invalidAccountId
  | invalidAmount
  | invalidExpectedVersion
  | amountOutOfRange
  | versionOutOfRange
  | invalidAccountState
  | accountIdentityMismatch
  | insufficientFunds
  | sameAccount
  | unbalancedPosting
  | duplicateAccount
  | tooManyLegs
  | anchorNotDebited
  | holdNotOpen
  | holdExpired
  | holdNotExpired
  | captureExceedsHold
  | invalidExpiry
  | notRevertible
  | alreadyReverted
  | anchorNotCredited
  | unknownCommand
  | unknownEvent
  deriving DecidableEq

def DomainErrorKind.code : DomainErrorKind → String
  | .invalidAccountId => "invalid_account_id"
  | .invalidAmount => "invalid_amount"
  | .invalidExpectedVersion => "invalid_expected_version"
  | .amountOutOfRange => "amount_out_of_range"
  | .versionOutOfRange => "version_out_of_range"
  | .invalidAccountState => "invalid_account_state"
  | .accountIdentityMismatch => "account_identity_mismatch"
  | .insufficientFunds => "insufficient_funds"
  | .sameAccount => "same_account"
  | .unbalancedPosting => "unbalanced"
  | .duplicateAccount => "duplicate_account"
  | .tooManyLegs => "too_many_legs"
  | .anchorNotDebited => "anchor_not_debited"
  | .holdNotOpen => "hold_not_open"
  | .holdExpired => "hold_expired"
  | .holdNotExpired => "hold_not_expired"
  | .captureExceedsHold => "capture_exceeds_hold"
  | .invalidExpiry => "invalid_expiry"
  | .notRevertible => "not_revertible"
  | .alreadyReverted => "already_reverted"
  | .anchorNotCredited => "anchor_not_credited"
  | .unknownCommand => "unknown_command"
  | .unknownEvent => "unknown_event"

structure DomainError where
  kind : DomainErrorKind
  message : String
  deriving DecidableEq

def DomainError.code (e : DomainError) : String := e.kind.code

inductive PyError
  | domain (e : DomainError)
  | valueError (message : String)
  | typeError (message : String)
  | unknownSchemaVersion (message : String)
  | overflowError
  | keyError (key : String)
  | integrityError
  | runtimeError (message : String)
  | numericValueOutOfRange
  | operationalError
  deriving DecidableEq

/-- The exception of a domain class with its message. -/
def domainError (kind : DomainErrorKind) (message : String) : PyError := .domain ⟨kind, message⟩

theorem DomainErrorKind.code_ne_empty (k : DomainErrorKind) : k.code ≠ "" := by
  cases k <;> decide

end Cloudscale
