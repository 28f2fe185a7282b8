import Cloudscale.Domain.Errors
import Cloudscale.Python.Uuid
import Mathlib.Algebra.BigOperators.Group.List.Basic
import Mathlib.Algebra.Order.BigOperators.Group.List
import Mathlib.Data.Fintype.Basic
import Mathlib.Data.Int.Basic

/-!
# Commands

The nine commands of the Account aggregate.  A command carries the proofs of
what its constructor checks, so an invalid command is no value; the constructors
(`Transfer.new`, `Post.new`, …) make the source's checks in the source's order.

`Deposit` and `Withdraw` validate the same fields and are one structure, as are
`VoidHold` and `ExpireHold`.  `Transfer.legs` is the two-leg view of a transfer
that the posting decision works on.
-/

namespace Cloudscale

open Checked Python

def maxSignedBigint : Int := 2 ^ 63 - 1

theorem maxSignedBigint_eq : maxSignedBigint = 9223372036854775807 := by decide

/-! ### Field checks -/

abbrev ValidAccountId (accountId : String) : Prop := accountId ≠ ""

structure ValidAmount (amount : Int) : Prop where
  pos : 0 < amount
  le_max : amount ≤ maxSignedBigint

structure ValidExpectedVersion (version : Int) : Prop where
  nonneg : 0 ≤ version
  le_max : version ≤ maxSignedBigint

instance (amount : Int) : Decidable (ValidAmount amount) :=
  decidable_of_iff (0 < amount ∧ amount ≤ maxSignedBigint) ⟨fun h => ⟨h.1, h.2⟩, fun h => ⟨h.1, h.2⟩⟩

instance (version : Int) : Decidable (ValidExpectedVersion version) :=
  decidable_of_iff (0 ≤ version ∧ version ≤ maxSignedBigint)
    ⟨fun h => ⟨h.1, h.2⟩, fun h => ⟨h.1, h.2⟩⟩

def validateAccountId (accountId : String) : Except PyError (PLift (ValidAccountId accountId)) :=
  require (accountId ≠ "")
    (domainError .invalidAccountId "account_id must be a non-empty string")

def validateAmount (amount : Int) : Except PyError (PLift (ValidAmount amount)) := do
  let ⟨pos⟩ ← require (0 < amount)
    (domainError .invalidAmount "amount must be a positive, non-Boolean integer in minor units")
  let ⟨le_max⟩ ← require (amount ≤ maxSignedBigint)
    (domainError .amountOutOfRange "amount exceeds the signed-BIGINT range")
  pure ⟨⟨pos, le_max⟩⟩

def validateExpectedVersion (version : Int) :
    Except PyError (PLift (ValidExpectedVersion version)) := do
  let ⟨h⟩ ← require (0 ≤ version ∧ version ≤ maxSignedBigint)
    (domainError .invalidExpectedVersion
      "expected_version must be a non-negative signed-BIGINT integer")
  pure ⟨⟨h.1, h.2⟩⟩

theorem validateAccountId_of {id : String} (h : ValidAccountId id) :
    validateAccountId id = .ok ⟨h⟩ := require_of h _

theorem validateAmount_of {amount : Int} (h : ValidAmount amount) :
    validateAmount amount = .ok ⟨h⟩ := by
  simp only [validateAmount, require_bind_of h.pos, require_bind_of h.le_max, pure_eq_ok]

theorem validateExpectedVersion_of {version : Int} (h : ValidExpectedVersion version) :
    validateExpectedVersion version = .ok ⟨h⟩ := by
  rw [validateExpectedVersion, require_bind_of ⟨h.nonneg, h.le_max⟩]
  rfl

/-! ### Cash -/

/-- The fields of a `Deposit` or a `Withdraw`. -/
structure CashCommand where
  accountId : String
  amount : Int
  expectedVersion : Int
  account_ok : ValidAccountId accountId
  amount_ok : ValidAmount amount
  version_ok : ValidExpectedVersion expectedVersion
  deriving DecidableEq

def CashCommand.new (accountId : String) (amount expectedVersion : Int) :
    Except PyError CashCommand := do
  let ⟨account_ok⟩ ← validateAccountId accountId
  let ⟨amount_ok⟩ ← validateAmount amount
  let ⟨version_ok⟩ ← validateExpectedVersion expectedVersion
  pure ⟨accountId, amount, expectedVersion, account_ok, amount_ok, version_ok⟩

abbrev Deposit := CashCommand

abbrev Withdraw := CashCommand

/-! ### Transfers and posting sets -/

inductive Direction
  | debit
  | credit
  deriving DecidableEq

def Direction.text : Direction → String
  | .debit => "debit"
  | .credit => "credit"

structure Leg where
  accountId : String
  amount : Int
  direction : Direction
  account_ok : ValidAccountId accountId
  amount_ok : ValidAmount amount
  deriving DecidableEq

def Leg.new (accountId : String) (amount : Int) (direction : Direction) : Except PyError Leg := do
  let ⟨account_ok⟩ ← validateAccountId accountId
  let ⟨amount_ok⟩ ← validateAmount amount
  pure ⟨accountId, amount, direction, account_ok, amount_ok⟩

structure Transfer where
  accountId : String
  targetAccountId : String
  amount : Int
  expectedVersion : Int
  account_ok : ValidAccountId accountId
  target_ok : ValidAccountId targetAccountId
  accounts_ne : accountId ≠ targetAccountId
  amount_ok : ValidAmount amount
  version_ok : ValidExpectedVersion expectedVersion
  deriving DecidableEq

def Transfer.new (accountId targetAccountId : String) (amount expectedVersion : Int) :
    Except PyError Transfer := do
  let ⟨account_ok⟩ ← validateAccountId accountId
  let ⟨target_ok⟩ ← validateAccountId targetAccountId
  let ⟨accounts_ne⟩ ← require (accountId ≠ targetAccountId)
    (domainError .sameAccount "a transfer needs two different accounts")
  let ⟨amount_ok⟩ ← validateAmount amount
  let ⟨version_ok⟩ ← validateExpectedVersion expectedVersion
  pure ⟨accountId, targetAccountId, amount, expectedVersion, account_ok, target_ok,
    accounts_ne, amount_ok, version_ok⟩

def Transfer.legs (t : Transfer) : List Leg :=
  [⟨t.accountId, t.amount, .debit, t.account_ok, t.amount_ok⟩,
    ⟨t.targetAccountId, t.amount, .credit, t.target_ok, t.amount_ok⟩]

/-- The public limit on the legs of a posting set. -/
def maxLegs : Nat := 16

/-- What the legs of one direction sum to. -/
def legTotal (direction : Direction) (postings : List Leg) : Int :=
  ((postings.filter (fun leg => leg.direction = direction)).map Leg.amount).sum

structure Post where
  accountId : String
  postings : List Leg
  expectedVersion : Int
  account_ok : ValidAccountId accountId
  version_ok : ValidExpectedVersion expectedVersion
  two_le : 2 ≤ postings.length
  le_maxLegs : postings.length ≤ maxLegs
  nodup : (postings.map Leg.accountId).Nodup
  balanced : legTotal .debit postings = legTotal .credit postings
  anchored : ∃ leg ∈ postings, leg.accountId = accountId ∧ leg.direction = .debit
  deriving DecidableEq

def Post.new (accountId : String) (postings : List Leg) (expectedVersion : Int) :
    Except PyError Post := do
  let ⟨account_ok⟩ ← validateAccountId accountId
  let ⟨version_ok⟩ ← validateExpectedVersion expectedVersion
  let ⟨two_le⟩ ← require (2 ≤ postings.length)
    (domainError .unbalancedPosting "a posting set needs at least two legs")
  let ⟨le_maxLegs⟩ ← require (postings.length ≤ maxLegs)
    (domainError .tooManyLegs s!"a posting set may have at most {maxLegs} legs")
  let ⟨nodup⟩ ← require (postings.map Leg.accountId).Nodup
    (domainError .duplicateAccount "each account may appear in one leg only")
  let debits := legTotal .debit postings
  let credits := legTotal .credit postings
  let ⟨balanced⟩ ← require (legTotal .debit postings = legTotal .credit postings)
    (domainError .unbalancedPosting
      s!"debits {debits} != credits {credits}; a posting set must balance")
  let ⟨anchored⟩ ← require (∃ leg ∈ postings, leg.accountId = accountId ∧ leg.direction = .debit)
    (domainError .anchorNotDebited "the anchor account must be a debited leg")
  pure ⟨accountId, postings, expectedVersion, account_ok, version_ok, two_le,
    le_maxLegs, nodup, balanced, anchored⟩

def Post.legs (p : Post) : List Leg := p.postings

/-- What the legs of a `Transfer` and of a `Post` have in common. -/
structure ValidLegs (anchor : String) (legs : List Leg) : Prop where
  anchor_ok : ValidAccountId anchor
  two_le : 2 ≤ legs.length
  nodup : (legs.map Leg.accountId).Nodup
  balanced : legTotal .debit legs = legTotal .credit legs
  anchored : ∃ leg ∈ legs, leg.accountId = anchor ∧ leg.direction = .debit

theorem Post.validLegs (p : Post) : ValidLegs p.accountId p.legs :=
  ⟨p.account_ok, p.two_le, p.nodup, p.balanced, p.anchored⟩

theorem Transfer.validLegs (t : Transfer) : ValidLegs t.accountId t.legs where
  anchor_ok := t.account_ok
  two_le := le_rfl
  nodup := by simpa [Transfer.legs] using t.accounts_ne
  balanced := by simp [Transfer.legs, legTotal]
  anchored := ⟨_, List.mem_cons_self, rfl, rfl⟩

theorem ValidLegs.exists_credit {anchor : String} {legs : List Leg} (h : ValidLegs anchor legs) :
    ∃ leg ∈ legs, leg.direction = .credit := by
  by_contra hnone
  push Not at hnone
  have hcredit : legTotal .credit legs = 0 := by
    rw [legTotal, List.filter_eq_nil_iff.mpr (fun leg hleg => by simpa using hnone leg hleg)]
    rfl
  obtain ⟨leg, hleg, -, hdebit⟩ := h.anchored
  have hmem : leg.amount ∈ (legs.filter (fun leg => leg.direction = .debit)).map Leg.amount :=
    List.mem_map_of_mem (List.mem_filter.mpr ⟨hleg, by simpa using hdebit⟩)
  have hle := List.single_le_sum (l := (legs.filter (fun leg => leg.direction = .debit)).map
    Leg.amount) (fun x hx => by
      obtain ⟨l, -, rfl⟩ := List.mem_map.mp hx
      exact l.amount_ok.pos.le) _ hmem
  have hpos := leg.amount_ok.pos
  have hbalanced := h.balanced
  rw [hcredit, legTotal] at hbalanced
  omega

/-! ### Holds -/

structure Hold where
  accountId : String
  targetAccountId : String
  amount : Int
  expectedVersion : Int
  ttlSeconds : Int
  account_ok : ValidAccountId accountId
  target_ok : ValidAccountId targetAccountId
  accounts_ne : accountId ≠ targetAccountId
  amount_ok : ValidAmount amount
  version_ok : ValidExpectedVersion expectedVersion
  ttl_pos : 1 ≤ ttlSeconds
  deriving DecidableEq

def Hold.new (accountId targetAccountId : String) (amount expectedVersion ttlSeconds : Int) :
    Except PyError Hold := do
  let ⟨account_ok⟩ ← validateAccountId accountId
  let ⟨target_ok⟩ ← validateAccountId targetAccountId
  let ⟨accounts_ne⟩ ← require (accountId ≠ targetAccountId)
    (domainError .sameAccount "a hold needs two different accounts")
  let ⟨amount_ok⟩ ← validateAmount amount
  let ⟨version_ok⟩ ← validateExpectedVersion expectedVersion
  let ⟨ttl_pos⟩ ← require (1 ≤ ttlSeconds)
    (domainError .invalidExpiry "ttl_seconds must be a positive integer")
  pure ⟨accountId, targetAccountId, amount, expectedVersion, ttlSeconds, account_ok,
    target_ok, accounts_ne, amount_ok, version_ok, ttl_pos⟩

/-- `amount = none` captures the whole hold. -/
structure PostHold where
  accountId : String
  holdId : UUID
  expectedVersion : Int
  amount : Option Int
  account_ok : ValidAccountId accountId
  version_ok : ValidExpectedVersion expectedVersion
  amount_ok : ∀ a ∈ amount, ValidAmount a
  deriving DecidableEq

def PostHold.new (accountId : String) (holdId : UUID) (expectedVersion : Int)
    (amount : Option Int) : Except PyError PostHold := do
  let ⟨account_ok⟩ ← validateAccountId accountId
  let ⟨version_ok⟩ ← validateExpectedVersion expectedVersion
  match amount with
  | none =>
    pure ⟨accountId, holdId, expectedVersion, none, account_ok, version_ok, by simp⟩
  | some a => do
    let ⟨amount_ok⟩ ← validateAmount a
    pure ⟨accountId, holdId, expectedVersion, some a, account_ok, version_ok,
      by simpa using amount_ok⟩

/-- The fields of a `VoidHold` or an `ExpireHold`. -/
structure ReleaseCommand where
  accountId : String
  holdId : UUID
  expectedVersion : Int
  account_ok : ValidAccountId accountId
  version_ok : ValidExpectedVersion expectedVersion
  deriving DecidableEq

def ReleaseCommand.new (accountId : String) (holdId : UUID) (expectedVersion : Int) :
    Except PyError ReleaseCommand := do
  let ⟨account_ok⟩ ← validateAccountId accountId
  let ⟨version_ok⟩ ← validateExpectedVersion expectedVersion
  pure ⟨accountId, holdId, expectedVersion, account_ok, version_ok⟩

abbrev VoidHold := ReleaseCommand

abbrev ExpireHold := ReleaseCommand

/-! ### Reverts -/

structure Revert where
  accountId : String
  transferId : UUID
  expectedVersion : Int
  account_ok : ValidAccountId accountId
  version_ok : ValidExpectedVersion expectedVersion
  deriving DecidableEq

def Revert.new (accountId : String) (transferId : UUID) (expectedVersion : Int) :
    Except PyError Revert := do
  let ⟨account_ok⟩ ← validateAccountId accountId
  let ⟨version_ok⟩ ← validateExpectedVersion expectedVersion
  pure ⟨accountId, transferId, expectedVersion, account_ok, version_ok⟩

theorem Revert.new_fields {accountId : String} {transferId : UUID} {expectedVersion : Int}
    {c : Revert} (h : Revert.new accountId transferId expectedVersion = .ok c) :
    c.accountId = accountId ∧ c.transferId = transferId ∧ c.expectedVersion = expectedVersion := by
  obtain ⟨_, -, h⟩ := bind_eq_ok.mp h
  obtain ⟨_, -, h⟩ := bind_eq_ok.mp h
  cases h
  exact ⟨rfl, rfl, rfl⟩

/-! ### All commands -/

inductive AccountCommand
  | deposit (c : Deposit)
  | withdraw (c : Withdraw)
  | transfer (c : Transfer)
  | post (c : Post)
  | hold (c : Hold)
  | postHold (c : PostHold)
  | voidHold (c : VoidHold)
  | expireHold (c : ExpireHold)
  | revert (c : Revert)
  deriving DecidableEq

namespace AccountCommand

def accountId : AccountCommand → String
  | deposit c => c.accountId
  | withdraw c => c.accountId
  | transfer c => c.accountId
  | post c => c.accountId
  | hold c => c.accountId
  | postHold c => c.accountId
  | voidHold c => c.accountId
  | expireHold c => c.accountId
  | revert c => c.accountId

def expectedVersion : AccountCommand → Int
  | deposit c => c.expectedVersion
  | withdraw c => c.expectedVersion
  | transfer c => c.expectedVersion
  | post c => c.expectedVersion
  | hold c => c.expectedVersion
  | postHold c => c.expectedVersion
  | voidHold c => c.expectedVersion
  | expireHold c => c.expectedVersion
  | revert c => c.expectedVersion

def typeName : AccountCommand → String
  | deposit _ => "Deposit"
  | withdraw _ => "Withdraw"
  | transfer _ => "Transfer"
  | post _ => "Post"
  | hold _ => "Hold"
  | postHold _ => "PostHold"
  | voidHold _ => "VoidHold"
  | expireHold _ => "ExpireHold"
  | revert _ => "Revert"

theorem account_ok (c : AccountCommand) : ValidAccountId c.accountId := by
  cases c with
  | deposit c => exact c.account_ok
  | withdraw c => exact c.account_ok
  | transfer c => exact c.account_ok
  | post c => exact c.account_ok
  | hold c => exact c.account_ok
  | postHold c => exact c.account_ok
  | voidHold c => exact c.account_ok
  | expireHold c => exact c.account_ok
  | revert c => exact c.account_ok

theorem version_ok (c : AccountCommand) : ValidExpectedVersion c.expectedVersion := by
  cases c with
  | deposit c => exact c.version_ok
  | withdraw c => exact c.version_ok
  | transfer c => exact c.version_ok
  | post c => exact c.version_ok
  | hold c => exact c.version_ok
  | postHold c => exact c.version_ok
  | voidHold c => exact c.version_ok
  | expireHold c => exact c.version_ok
  | revert c => exact c.version_ok

end AccountCommand

end Cloudscale
