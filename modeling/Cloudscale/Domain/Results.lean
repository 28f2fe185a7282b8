import Cloudscale.Domain.Events
import Cloudscale.Python.Hashlib

/-!
# Command results

The persisted outcome of a command.  A `CommandResult` carries the rules of its
constructor: an accepted result names its event and its postings, a rejected one
has an error code and nothing else.  `CommandResult.toJson` is the text that is
stored and `CommandResult.fromDict` what reads the parsed document back, with
every check of the source.

`CommandResult.fromDict_toDict` is the round trip on the document, and
`CommandResult.fromJson_toJson` the round trip on the text: a stored result is
the result that was stored.
-/

namespace Cloudscale

open Checked Python

inductive CommandOutcome
  | accepted
  | versionConflict
  | commandIdConflict
  | insufficientFunds
  | domainRejected
  deriving DecidableEq

namespace CommandOutcome

def text : CommandOutcome → String
  | accepted => "accepted"
  | versionConflict => "version_conflict"
  | commandIdConflict => "command_id_conflict"
  | insufficientFunds => "insufficient_funds"
  | domainRejected => "domain_rejected"

def all : List CommandOutcome :=
  [accepted, versionConflict, commandIdConflict, insufficientFunds, domainRejected]

def ofText (text : String) : Option CommandOutcome := all.find? (fun o => o.text = text)

@[simp] theorem ofText_text (o : CommandOutcome) : ofText o.text = some o := by
  cases o <;> decide

end CommandOutcome

/-! ### Postings -/

/-- One stream written by an accepted command. -/
@[ext] structure Posting where
  accountId : String
  eventId : UUID
  committedVersion : Int
  account_ok : ValidAccountId accountId
  version_ok : 1 ≤ committedVersion ∧ committedVersion ≤ maxSignedBigint

instance : DecidableEq Posting := fun _ _ => decidable_of_iff _ Posting.ext_iff.symm

namespace Posting

def new (accountId : String) (eventId : UUID) (committedVersion : Int) :
    Except PyError Posting := do
  let ⟨account_ok⟩ ← validateAccountId accountId
  let ⟨version_ok⟩ ← require (1 ≤ committedVersion ∧ committedVersion ≤ maxSignedBigint)
    (PyError.valueError "committed_version must be a positive, non-Boolean signed-BIGINT integer")
  pure ⟨accountId, eventId, committedVersion, account_ok, version_ok⟩

theorem new_self (p : Posting) : new p.accountId p.eventId p.committedVersion = .ok p := by
  simp only [new, validateAccountId_of p.account_ok, ok_bind, require_bind_of p.version_ok,
    pure_eq_ok]

def toDict (p : Posting) : Dict :=
  [("account_id", .str p.accountId), ("event_id", .str p.eventId.str),
    ("committed_version", .int p.committedVersion)]

def fromDict (value : Dict) : Except PyError Posting := do
  let _ ← require (sameKeys value ["account_id", "event_id", "committed_version"])
    (PyError.valueError "invalid posting fields")
  let eventId ← decodeUuid (value.lookup "event_id") "event_id"
  new (textOf (value.lookup "account_id")) eventId (intOf (value.lookup "committed_version"))

theorem fromDict_perm {value value' : Dict} (h : value.Perm value')
    (hkeys : (value.map Prod.fst).Nodup) : fromDict value = fromDict value' := by
  rw [fromDict, fromDict, sameKeys_perm h]
  simp only [Json.lookup_perm h hkeys]

end Posting

/-! ### The result -/

/-- What an outcome requires of the other fields, and forbids. -/
def OutcomeFields (outcome : CommandOutcome) (accountId : String) (committedVersion : Option Int)
    (eventId : Option UUID) (errorCode : Option String) (httpStatus : Int)
    (postings : List Posting) : Prop :=
  if outcome = .accepted then
    errorCode = none ∧ (200 ≤ httpStatus ∧ httpStatus < 300) ∧
      (postings.map Posting.accountId).Nodup ∧
      ∃ p ∈ postings, p.accountId = accountId ∧ eventId = some p.eventId ∧
        committedVersion = some p.committedVersion
  else
    committedVersion = none ∧ eventId = none ∧ errorCode ≠ none ∧
      (400 ≤ httpStatus ∧ httpStatus < 500) ∧ postings = []

structure CommandResult where
  commandId : UUID
  requestHash : Digest
  outcome : CommandOutcome
  accountId : String
  expectedVersion : Int
  currentVersion : Int
  committedVersion : Option Int
  eventId : Option UUID
  correlationId : UUID
  errorCode : Option String
  httpStatus : Int
  createdAt : Datetime
  postings : List Posting
  account_ok : ValidAccountId accountId
  expected_ok : ValidExpectedVersion expectedVersion
  current_ok : 0 ≤ currentVersion ∧ currentVersion ≤ maxSignedBigint
  http_ok : 100 ≤ httpStatus ∧ httpStatus ≤ 599
  committed_ok : ∀ v ∈ committedVersion, 1 ≤ v ∧ v ≤ maxSignedBigint
  code_ok : errorCode ≠ some ""
  outcome_ok : OutcomeFields outcome accountId committedVersion eventId errorCode httpStatus postings

namespace CommandResult

/-- The checks that an accepted result passes; they return its postings, the
single one derived from the result's own fields. -/
def acceptedPostings (accountId : String) (committedVersion : Option Int) (eventId : Option UUID)
    (errorCode : Option String) (httpStatus : Int) (postings : List Posting) :
    Except PyError (List Posting) :=
  match committedVersion, eventId with
  | some version, some eventId => do
    let _ ← require (errorCode = none)
      (PyError.valueError "an accepted result cannot contain error_code")
    let _ ← require (200 ≤ httpStatus ∧ httpStatus < 300)
      (PyError.valueError "an accepted result requires a successful HTTP status")
    let source ← Posting.new accountId eventId version
    if postings = [] then pure [source]
    else do
      let _ ← require (postings.map Posting.accountId).Nodup
        (PyError.valueError "postings must name each account at most once")
      let _ ← require (source ∈ postings) (PyError.valueError
        ("postings must include the addressed account with the result's " ++
          "event_id and committed_version"))
      pure postings
  | _, _ => .error (.valueError "an accepted result requires committed_version and event_id")

def rejectedPostings (committedVersion : Option Int) (eventId : Option UUID)
    (errorCode : Option String) (httpStatus : Int) (postings : List Posting) :
    Except PyError (List Posting) := do
  let _ ← require (committedVersion = none ∧ eventId = none)
    (PyError.valueError "a rejected result cannot contain committed_version or event_id")
  let _ ← require (errorCode ≠ none)
    (PyError.valueError "a rejected result requires a stable error_code")
  let _ ← require (400 ≤ httpStatus ∧ httpStatus < 500)
    (PyError.valueError "a rejected result requires a client-error HTTP status")
  let _ ← require (postings = [])
    (PyError.valueError "a rejected result cannot contain postings")
  pure []

def postingsForOutcome (outcome : CommandOutcome) (accountId : String)
    (committedVersion : Option Int) (eventId : Option UUID) (errorCode : Option String)
    (httpStatus : Int) (postings : List Posting) : Except PyError (List Posting) :=
  if outcome = .accepted then
    acceptedPostings accountId committedVersion eventId errorCode httpStatus postings
  else rejectedPostings committedVersion eventId errorCode httpStatus postings

theorem outcomeFields_of_ok {outcome : CommandOutcome} {accountId : String}
    {committedVersion : Option Int} {eventId : Option UUID} {errorCode : Option String}
    {httpStatus : Int} {postings result : List Posting}
    (h : postingsForOutcome outcome accountId committedVersion eventId errorCode httpStatus postings =
      .ok result) :
    OutcomeFields outcome accountId committedVersion eventId errorCode httpStatus result := by
  rw [postingsForOutcome] at h
  rw [OutcomeFields]
  split at h
  next hacc =>
    rw [if_pos hacc]
    rw [acceptedPostings.eq_def] at h
    split at h
    next version eventId =>
      simp only [require_bind_eq_ok] at h
      obtain ⟨hcode, hhttp, h⟩ := h
      obtain ⟨source, hsource, h⟩ := bind_eq_ok.mp h
      have hfields : source.accountId = accountId ∧ source.eventId = eventId ∧
          source.committedVersion = version := by
        rw [Posting.new, validateAccountId_bind_eq_ok] at hsource
        obtain ⟨_, hsource⟩ := hsource
        obtain ⟨_, hsource⟩ := require_bind_eq_ok.mp hsource
        cases hsource
        exact ⟨rfl, rfl, rfl⟩
      obtain ⟨haccount, hevent, hversion⟩ := hfields
      refine ⟨hcode, hhttp, ?_⟩
      split at h
      next hempty =>
        cases h
        refine ⟨by simp, source, by simp, haccount, by rw [hevent], by rw [hversion]⟩
      next hne =>
        simp only [require_bind_eq_ok] at h
        obtain ⟨hnodup, hmem, h⟩ := h
        cases h
        exact ⟨hnodup, source, hmem, haccount, by rw [hevent], by rw [hversion]⟩
    next => cases h
  next hacc =>
    rw [if_neg hacc]
    rw [rejectedPostings] at h
    simp only [require_bind_eq_ok] at h
    obtain ⟨⟨hversion, hevent⟩, hcode, hhttp, hnone, h⟩ := h
    cases h
    exact ⟨hversion, hevent, hcode, hhttp, rfl⟩

def new (commandId : UUID) (requestHash : Digest) (outcome : CommandOutcome) (accountId : String)
    (expectedVersion currentVersion : Int) (committedVersion : Option Int) (eventId : Option UUID)
    (correlationId : UUID) (errorCode : Option String) (httpStatus : Int) (createdAt : Datetime)
    (postings : List Posting) : Except PyError CommandResult := do
  let ⟨account_ok⟩ ← validateAccountId accountId
  let ⟨expected_ok⟩ ← validateExpectedVersion expectedVersion
  let ⟨current_ok⟩ ← require (0 ≤ currentVersion ∧ currentVersion ≤ maxSignedBigint)
    (PyError.valueError
      "current_version must be a non-negative, non-Boolean signed-BIGINT integer")
  let ⟨http_ok⟩ ← require (100 ≤ httpStatus ∧ httpStatus ≤ 599)
    (PyError.valueError "http_status must be a non-Boolean integer from 100 to 599")
  let ⟨committed_ok⟩ ← require (∀ v ∈ committedVersion, 1 ≤ v ∧ v ≤ maxSignedBigint)
    (PyError.valueError
      "committed_version must be a positive, non-Boolean signed-BIGINT integer when present")
  let ⟨code_ok⟩ ← require (errorCode ≠ some "")
    (PyError.valueError "error_code must be None or a non-empty string")
  match hpostings : postingsForOutcome outcome accountId committedVersion eventId errorCode
      httpStatus postings with
  | .error e => .error e
  | .ok result =>
    pure ⟨commandId, requestHash, outcome, accountId, expectedVersion, currentVersion,
      committedVersion, eventId, correlationId, errorCode, httpStatus, createdAt, result,
      account_ok, expected_ok, current_ok, http_ok, committed_ok,
      code_ok, outcomeFields_of_ok hpostings⟩

theorem postingsForOutcome_self (r : CommandResult) :
    postingsForOutcome r.outcome r.accountId r.committedVersion r.eventId r.errorCode r.httpStatus
      r.postings = .ok r.postings := by
  have hfields := r.outcome_ok
  rw [OutcomeFields] at hfields
  rw [postingsForOutcome]
  by_cases hacc : r.outcome = .accepted
  · rw [if_pos hacc] at hfields ⊢
    obtain ⟨hcode, hhttp, hnodup, p, hp, haccount, hevent, hversion⟩ := hfields
    have hsource : Posting.new r.accountId p.eventId p.committedVersion = .ok p := by
      rw [← haccount]
      exact p.new_self
    have hne : r.postings ≠ [] := by
      intro hempty
      rw [hempty] at hp
      cases hp
    rw [hversion, hevent, acceptedPostings, require_bind_of hcode, require_bind_of hhttp, hsource,
      ok_bind, if_neg hne, require_bind_of hnodup, require_bind_of hp]
    rfl
  · rw [if_neg hacc] at hfields ⊢
    obtain ⟨hversion, hevent, hcode, hhttp, hnone⟩ := hfields
    rw [rejectedPostings, require_bind_of ⟨hversion, hevent⟩, require_bind_of hcode,
      require_bind_of hhttp, require_bind_of hnone, hnone]
    rfl

/-- A result is built from its own fields and any postings that its outcome
completes to its own. -/
theorem new_of_postings (r : CommandResult) {postings : List Posting}
    (h : postingsForOutcome r.outcome r.accountId r.committedVersion r.eventId r.errorCode
      r.httpStatus postings = .ok r.postings) :
    new r.commandId r.requestHash r.outcome r.accountId r.expectedVersion r.currentVersion
      r.committedVersion r.eventId r.correlationId r.errorCode r.httpStatus r.createdAt
      postings = .ok r := by
  simp only [new, validateAccountId_of r.account_ok, validateExpectedVersion_of r.expected_ok,
    ok_bind, require_bind_of r.current_ok, require_bind_of r.http_ok,
    require_bind_of r.committed_ok, require_bind_of r.code_ok]
  split
  next e he => rw [h] at he; cases he
  next result he =>
    rw [h] at he
    cases he
    rfl

theorem new_self (r : CommandResult) :
    new r.commandId r.requestHash r.outcome r.accountId r.expectedVersion r.currentVersion
      r.committedVersion r.eventId r.correlationId r.errorCode r.httpStatus r.createdAt
      r.postings = .ok r := r.new_of_postings r.postingsForOutcome_self

section

variable {commandId correlationId : UUID} {requestHash : Digest} {outcome : CommandOutcome}
  {accountId : String} {expectedVersion currentVersion httpStatus : Int}
  {committedVersion : Option Int} {eventId : Option UUID} {errorCode : Option String}
  {createdAt : Datetime} {postings : List Posting}

theorem new_fields {r : CommandResult}
    (h : new commandId requestHash outcome accountId expectedVersion currentVersion committedVersion
      eventId correlationId errorCode httpStatus createdAt postings = .ok r) :
    r.commandId = commandId ∧ r.requestHash = requestHash ∧ r.outcome = outcome ∧
      r.accountId = accountId ∧ r.currentVersion = currentVersion := by
  rw [new, validateAccountId_bind_eq_ok] at h
  obtain ⟨_, h⟩ := h
  obtain ⟨_, _, h⟩ := bind_eq_ok.mp h
  simp only [require_bind_eq_ok] at h
  obtain ⟨_, _, _, _, h⟩ := h
  split at h
  next => cases h
  next =>
    cases h
    exact ⟨rfl, rfl, rfl, rfl, rfl⟩

theorem new_accepted {r : CommandResult} (hacc : outcome = .accepted) (hne : postings ≠ [])
    (h : new commandId requestHash outcome accountId expectedVersion currentVersion committedVersion
      eventId correlationId errorCode httpStatus createdAt postings = .ok r) :
    r.committedVersion = committedVersion ∧ r.eventId = eventId ∧ r.postings = postings := by
  rw [new, validateAccountId_bind_eq_ok] at h
  obtain ⟨_, h⟩ := h
  obtain ⟨_, _, h⟩ := bind_eq_ok.mp h
  simp only [require_bind_eq_ok] at h
  obtain ⟨_, _, _, _, h⟩ := h
  split at h
  next => cases h
  next result hresult =>
    cases h
    refine ⟨rfl, rfl, ?_⟩
    rw [postingsForOutcome, if_pos hacc, acceptedPostings.eq_def] at hresult
    split at hresult
    next =>
      simp only [require_bind_eq_ok, if_neg hne] at hresult
      obtain ⟨_, _, hresult⟩ := hresult
      obtain ⟨_, _, hresult⟩ := bind_eq_ok.mp hresult
      simp only [require_bind_eq_ok] at hresult
      obtain ⟨_, _, hresult⟩ := hresult
      exact (Except.ok.inj hresult).symm
    next => cases hresult

theorem new_of (haccount : ValidAccountId accountId) (hexpected : ValidExpectedVersion expectedVersion)
    (hcurrent : 0 ≤ currentVersion ∧ currentVersion ≤ maxSignedBigint)
    (hhttp : 100 ≤ httpStatus ∧ httpStatus ≤ 599)
    (hcommitted : ∀ v ∈ committedVersion, 1 ≤ v ∧ v ≤ maxSignedBigint)
    (hcode : errorCode ≠ some "")
    (houtcome : OutcomeFields outcome accountId committedVersion eventId errorCode httpStatus
      postings) :
    ∃ r, new commandId requestHash outcome accountId expectedVersion currentVersion committedVersion
      eventId correlationId errorCode httpStatus createdAt postings = .ok r :=
  ⟨_, new_self ⟨commandId, requestHash, outcome, accountId, expectedVersion, currentVersion,
    committedVersion, eventId, correlationId, errorCode, httpStatus, createdAt, postings, haccount,
    hexpected, hcurrent, hhttp, hcommitted, hcode, houtcome⟩⟩

end

/-! ### The stored text -/

/-- `None` or a value. -/
def optional {α : Type} (write : α → Json) : Option α → Json
  | some a => write a
  | none => .null

def toDict (r : CommandResult) : Dict :=
  [("command_id", .str r.commandId.str),
    ("request_hash", .str r.requestHash.hex),
    ("outcome", .str r.outcome.text),
    ("account_id", .str r.accountId),
    ("expected_version", .int r.expectedVersion),
    ("current_version", .int r.currentVersion),
    ("committed_version", optional .int r.committedVersion),
    ("event_id", optional (fun id => .str id.str) r.eventId),
    ("correlation_id", .str r.correlationId.str),
    ("error_code", optional .str r.errorCode),
    ("http_status", .int r.httpStatus),
    ("created_at", .str (formatUtcTimestamp r.createdAt)),
    ("postings", .arr (r.postings.map (fun p => .obj p.toDict)))]

/-- The text that is stored: canonical JSON. -/
def toJson (r : CommandResult) : String := Json.canonical (.obj r.toDict)

/-- `_postings_from`; results stored before postings existed have none. -/
def postingsFrom : Option Json → Except PyError (List Posting)
  | none => .ok []
  | some (.arr items) => items.mapM (fun
    | .obj value => Posting.fromDict value
    | _ => .error (.valueError "invalid posting fields"))
  | some _ => .error (.valueError "postings must be a list")

/-- `_digest_from`, with the check of the length. -/
def digestFrom : Option Json → Except PyError Digest
  | some (.str text) =>
    match Digest.ofHex text with
    | some d => .ok d
    | none => .error (.valueError "request_hash must be a hexadecimal string")
  | _ => .error (.valueError "request_hash must be a hexadecimal string")

/-- A version; anything else fails the check that -1 fails. -/
def versionOf : Option Json → Int
  | some (.int n) => n
  | _ => -1

def decodeOutcome : Option Json → Except PyError CommandOutcome
  | some (.str text) =>
    match CommandOutcome.ofText text with
    | some o => .ok o
    | none => .error (.valueError "outcome is not a supported command outcome")
  | _ => .error (.valueError "outcome is not a supported command outcome")

/-- An optional committed version; anything else fails the check that zero fails. -/
def committedVersionOf : Option Json → Option Int
  | some (.int n) => some n
  | some .null => none
  | _ => some 0

def decodeEventId : Option Json → Except PyError (Option UUID)
  | some .null => .ok none
  | some (.str text) => some <$> decodeUuid (some (.str text)) "event_id"
  | _ => .error (.valueError "event_id must be null or a UUID string")

def decodeErrorCode : Option Json → Except PyError (Option String)
  | some .null => .ok none
  | some (.str text) => .ok (some text)
  | _ => .error (.valueError "error_code must be null or a string")

/-- The fields a document must have; `postings` may be missing. -/
def requiredKeys : List String :=
  ["command_id", "request_hash", "outcome", "account_id", "expected_version", "current_version",
    "committed_version", "event_id", "correlation_id", "error_code", "http_status", "created_at"]

def invalidFields : String := "invalid command result fields"

def fromDict (value : Dict) : Except PyError CommandResult := do
  let _ ← require (sameKeys (value.filter (fun m => m.1 ≠ "postings")) requiredKeys)
    (PyError.valueError invalidFields)
  let postings ← postingsFrom (value.lookup "postings")
  let digest ← digestFrom (value.lookup "request_hash")
  let errorCode ← decodeErrorCode (value.lookup "error_code")
  let commandId ← decodeUuid (value.lookup "command_id") "command_id"
  let eventId ← decodeEventId (value.lookup "event_id")
  let correlationId ← decodeUuid (value.lookup "correlation_id") "correlation_id"
  let createdAt ← parseUtcTimestamp (value.lookup "created_at") "created_at"
  let outcome ← decodeOutcome (value.lookup "outcome")
  new commandId digest outcome (textOf (value.lookup "account_id"))
    (versionOf (value.lookup "expected_version")) (versionOf (value.lookup "current_version"))
    (committedVersionOf (value.lookup "committed_version")) eventId correlationId errorCode
    (intOf (value.lookup "http_status")) createdAt postings

/-- `CommandResult.from_dict(json.loads(text))`, as a stored row is read. -/
def fromStored (text : String) : Except PyError CommandResult :=
  match Json.loads text with
  | some (.obj value) => fromDict value
  | some (.oddObj _) => .error (.valueError invalidFields)
  | some _ => .error (.valueError "serialized value must contain a JSON object")
  | none => .error (.valueError "serialized value must be valid JSON")

/-! ### The round trip -/

theorem fromDict_perm {value value' : Dict} (h : value.Perm value')
    (hkeys : (value.map Prod.fst).Nodup) : fromDict value = fromDict value' := by
  rw [fromDict, fromDict, sameKeys_perm (h.filter _)]
  simp only [Json.lookup_perm h hkeys]

/-- The document of a result decodes to its fields and the postings that are read
from `last`, its last member if it has one. -/
theorem fromDict_dropLast (r : CommandResult) {last : Dict} {postings : List Posting}
    (hlast : last = [] ∨ ∃ v, last = [("postings", v)])
    (hpostings : postingsFrom (last.lookup "postings") = .ok postings) :
    fromDict (r.toDict.dropLast ++ last) =
      new r.commandId r.requestHash r.outcome r.accountId r.expectedVersion r.currentVersion
        r.committedVersion r.eventId r.correlationId r.errorCode r.httpStatus r.createdAt
        postings := by
  have hkeys : sameKeys ((r.toDict.dropLast ++ last).filter (fun m => m.1 ≠ "postings"))
      requiredKeys = true := by
    rcases hlast with rfl | ⟨v, rfl⟩
    · rfl
    · rfl
  have houtcome : decodeOutcome (some (.str r.outcome.text)) = .ok r.outcome := by
    simp only [decodeOutcome, CommandOutcome.ofText_text]
  have hdigest : digestFrom (some (.str r.requestHash.hex)) = .ok r.requestHash := by
    simp only [digestFrom, Digest.ofHex_hex]
  have hevent : decodeEventId (some (optional (fun id => .str id.str) r.eventId)) =
      .ok r.eventId := by
    cases r.eventId with
    | none => rfl
    | some id => simp only [optional, decodeEventId, decodeUuid, UUID.ofText_str]; rfl
  have hcode : decodeErrorCode (some (optional .str r.errorCode)) = .ok r.errorCode := by
    cases r.errorCode <;> rfl
  have hversion : committedVersionOf (some (optional .int r.committedVersion)) =
      r.committedVersion := by
    cases r.committedVersion <;> rfl
  rw [fromDict, require_bind_of hkeys]
  show (postingsFrom (last.lookup "postings") >>= fun postings =>
    digestFrom (some (.str r.requestHash.hex)) >>= fun digest =>
    decodeErrorCode (some (optional .str r.errorCode)) >>= fun errorCode =>
    decodeUuid (some (.str r.commandId.str)) "command_id" >>= fun commandId =>
    decodeEventId (some (optional (fun id => .str id.str) r.eventId)) >>= fun eventId =>
    decodeUuid (some (.str r.correlationId.str)) "correlation_id" >>= fun correlationId =>
    parseUtcTimestamp (some (.str (formatUtcTimestamp r.createdAt))) "created_at" >>= fun createdAt =>
    decodeOutcome (some (.str r.outcome.text)) >>= fun outcome =>
    new commandId digest outcome r.accountId r.expectedVersion r.currentVersion
      (committedVersionOf (some (optional .int r.committedVersion))) eventId correlationId errorCode
      r.httpStatus createdAt postings) = _
  simp only [hpostings, hdigest, hcode, hevent, houtcome, hversion, ok_bind, decodeUuid_str_bind,
    parseUtcTimestamp_format]

theorem fromDict_toDict (r : CommandResult) {items : List Json}
    (hitems : postingsFrom (some (.arr items)) = .ok r.postings) :
    fromDict (r.toDict.dropLast ++ [("postings", .arr items)]) = .ok r := by
  rw [fromDict_dropLast r (Or.inr ⟨_, rfl⟩) hitems, new_self]

theorem nodup_keys_posting (p : Posting) : (p.toDict.map Prod.fst).Nodup := by
  show ["account_id", "event_id", "committed_version"].Nodup
  decide

theorem nodup_keys (r : CommandResult) : (r.toDict.map Prod.fst).Nodup := by
  show (requiredKeys ++ ["postings"]).Nodup
  decide

theorem fromDict_posting (p : Posting) : Posting.fromDict p.toDict = .ok p := by
  have hkeys : sameKeys p.toDict ["account_id", "event_id", "committed_version"] = true := rfl
  rw [Posting.fromDict, require_bind_of hkeys]
  refine (decodeUuid_str_bind p.eventId "event_id" _).trans ?_
  exact p.new_self

theorem fromDict_posting_sorted (p : Posting) :
    Posting.fromDict (Json.sortMembers p.toDict) = .ok p := by
  rw [← Posting.fromDict_perm (Json.sortMembers_perm p.toDict).symm (nodup_keys_posting p),
    fromDict_posting]

theorem plain_toDict (r : CommandResult) : Json.Plain Json.defaultLimit (.obj r.toDict) := by
  have hoptional : ∀ {α : Type} (write : α → Json) (a : Option α),
      (∀ x ∈ a, Json.Plain Json.defaultLimit (write x)) →
      Json.Plain Json.defaultLimit (optional write a) := by
    intro α write a h
    cases a with
    | none => exact .null
    | some x => exact h x rfl
  have hversion : ∀ {version : Int}, 1 ≤ version ∧ version ≤ maxSignedBigint →
      Json.Plain Json.defaultLimit (.int version) :=
    fun h => .int (fits_of_le ⟨by omega, h.2⟩)
  have hstatus : r.httpStatus ≤ maxSignedBigint := by
    have := r.http_ok
    rw [maxSignedBigint_eq]
    omega
  refine .obj (nodup_keys r) ?_
  simp only [toDict, List.forall_mem_cons]
  refine ⟨.str _, .str _, .str _, .str _,
    .int (fits_of_le ⟨r.expected_ok.nonneg, r.expected_ok.le_max⟩),
    .int (fits_of_le r.current_ok), hoptional _ _ (fun v hv => hversion (r.committed_ok v hv)),
    hoptional _ _ (fun _ _ => .str _), .str _, hoptional _ _ (fun _ _ => .str _),
    .int (fits_of_le ⟨by have := r.http_ok; omega, hstatus⟩), .str _, .arr ?_, by simp⟩
  intro v hv
  obtain ⟨p, -, rfl⟩ := List.mem_map.mp hv
  refine .obj (nodup_keys_posting p) ?_
  simp only [Posting.toDict, List.forall_mem_cons]
  exact ⟨.str _, .str _, hversion p.version_ok, by simp⟩

/-- The document with the members of every object in the order of their keys. -/
theorem fromDict_sorted (r : CommandResult) :
    fromDict (Json.sortMembers (Json.sortEach r.toDict)) = .ok r := by
  have hoptional : ∀ {α : Type} (write : α → Json) (a : Option α),
      (∀ x, (write x).sortKeys = write x) → (optional write a).sortKeys = optional write a := by
    intro α write a h
    cases a with
    | none => rfl
    | some x => exact h x
  set items := r.postings.map (fun p => Json.obj (Json.sortMembers p.toDict)) with hitems
  have hsorted : Json.sortItems (r.postings.map (fun p => Json.obj p.toDict)) = items := by
    rw [Json.sortItems_eq, List.map_map, hitems]
    rfl
  have hdict : Json.sortEach r.toDict = r.toDict.dropLast ++ [("postings", .arr items)] := by
    simp [toDict, Json.sortEach, Json.sortKeys, hsorted, hoptional Json.int _ (fun _ => rfl),
      hoptional Json.str _ (fun _ => rfl),
      hoptional (fun id : UUID => Json.str id.str) _ (fun _ => rfl)]
  have hpostings : postingsFrom (some (.arr items)) = .ok r.postings := by
    rw [hitems, postingsFrom, mapM_eq_ok, List.forall₂_map_left_iff, List.forall₂_same]
    exact fun p _ => fromDict_posting_sorted p
  have hnodup : ((Json.sortEach r.toDict).map Prod.fst).Nodup := by
    rw [Json.sortEach_eq, List.map_map]
    exact nodup_keys r
  rw [← fromDict_perm (Json.sortMembers_perm _).symm hnodup, hdict, fromDict_toDict r hpostings]

/-- A stored result reads back as the result that was stored. -/
theorem fromStored_toJson (r : CommandResult) : fromStored r.toJson = .ok r := by
  have hload := Json.loads_canonical r.plain_toDict
  rw [Json.sortKeys] at hload
  simp only [fromStored, toJson, hload, fromDict_sorted]

end CommandResult

/-! ### Balance views -/

/-- The projected balance of an account, as a query answers it. -/
@[ext] structure BalanceView where
  accountId : String
  balance : Int
  version : Int
  held : Int
  account_ok : ValidAccountId accountId
  balance_ok : 0 ≤ balance ∧ balance ≤ maxSignedBigint
  held_ok : 0 ≤ held
  version_ok : 0 ≤ version ∧ version ≤ maxSignedBigint

instance : DecidableEq BalanceView := fun _ _ => decidable_of_iff _ BalanceView.ext_iff.symm

namespace BalanceView

def new (accountId : String) (balance version held : Int) : Except PyError BalanceView := do
  let ⟨account_ok⟩ ← validateAccountId accountId
  let ⟨balance_ok⟩ ← require (0 ≤ balance ∧ balance ≤ maxSignedBigint)
    (PyError.valueError "balance must be a non-negative, non-Boolean signed-BIGINT integer")
  let ⟨held_ok⟩ ← require (0 ≤ held)
    (PyError.valueError "held must be a non-negative, non-Boolean integer")
  let ⟨version_ok⟩ ← require (0 ≤ version ∧ version ≤ maxSignedBigint)
    (PyError.valueError "current_version must be a non-negative, non-Boolean signed-BIGINT integer")
  pure ⟨accountId, balance, version, held, account_ok, balance_ok, held_ok,
    version_ok⟩

theorem new_isOk_iff {accountId : String} {balance version held : Int} :
    (∃ view, new accountId balance version held = .ok view) ↔ ValidAccountId accountId ∧
      (0 ≤ balance ∧ balance ≤ maxSignedBigint) ∧ 0 ≤ held ∧
      (0 ≤ version ∧ version ≤ maxSignedBigint) := by
  constructor
  · rintro ⟨view, h⟩
    obtain ⟨haccount, h⟩ := require_bind_eq_ok.mp h
    obtain ⟨hbalance, h⟩ := require_bind_eq_ok.mp h
    obtain ⟨hheld, h⟩ := require_bind_eq_ok.mp h
    obtain ⟨hversion, -⟩ := require_bind_eq_ok.mp h
    exact ⟨haccount, hbalance, hheld, hversion⟩
  · rintro ⟨haccount, hbalance, hheld, hversion⟩
    refine ⟨⟨accountId, balance, version, held, haccount, hbalance, hheld, hversion⟩, ?_⟩
    simp only [new, validateAccountId_of haccount, ok_bind, require_bind_of hbalance,
      require_bind_of hheld, require_bind_of hversion, pure_eq_ok]

end BalanceView

end Cloudscale
