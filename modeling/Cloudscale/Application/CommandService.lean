import Cloudscale.Domain.Commands
import Cloudscale.Domain.Events
import Cloudscale.Python.Hashlib

/-!
# Normalized commands

`canonicalCommandPayload` is the canonical JSON of a command with its issuer and
subject, without the command id; `normalizeCommand` adds the ids and the SHA-256
of the payload.  A `NormalizedCommand` carries what its constructor checks, so
its hash is the hash of its payload.
-/

namespace Cloudscale

open Checked Python

def commandSchemaVersion : Int := 1

/-- `_command_specific_fields`: what distinguishes one intent from another. -/
def commandSpecificFields : AccountCommand → Dict
  | .post c =>
    [("postings", .arr (c.postings.map (fun leg => .obj
      [("account_id", .str leg.accountId), ("amount", .int leg.amount),
        ("direction", .str leg.direction.text)])))]
  | .hold c =>
    [("amount", .int c.amount), ("target_account_id", .str c.targetAccountId),
      ("ttl_seconds", .int c.ttlSeconds)]
  | .postHold c =>
    [("hold_id", .str c.holdId.str),
      ("amount", match c.amount with | some a => .int a | none => .null)]
  | .voidHold c => [("hold_id", .str c.holdId.str)]
  | .expireHold c => [("hold_id", .str c.holdId.str)]
  | .revert c => [("transfer_id", .str c.transferId.str)]
  | .transfer c => [("amount", .int c.amount), ("target_account_id", .str c.targetAccountId)]
  | .deposit c => [("amount", .int c.amount)]
  | .withdraw c => [("amount", .int c.amount)]

def normalizedFields (command : AccountCommand) (issuer subject : String) : Dict :=
  [("account_id", .str command.accountId), ("expected_version", .int command.expectedVersion),
    ("issuer", .str issuer), ("schema_version", .int commandSchemaVersion),
    ("subject", .str subject), ("type", .str command.typeName)] ++ commandSpecificFields command

/-- The canonical UTF-8 bytes used for command idempotency. -/
def canonicalCommandPayload (command : AccountCommand) (issuer subject : String) :
    Except PyError (List Nat) := do
  let _ ← require (issuer ≠ "") (PyError.valueError "issuer must be a non-empty string")
  let _ ← require (subject ≠ "") (PyError.valueError "subject must be a non-empty string")
  pure (utf8 (Json.canonical (.obj (normalizedFields command issuer subject))))

theorem canonicalCommandPayload_eq_ok {command : AccountCommand} {issuer subject : String}
    {payload : List Nat} : canonicalCommandPayload command issuer subject = .ok payload ↔
      issuer ≠ "" ∧ subject ≠ "" ∧
        payload = utf8 (Json.canonical (.obj (normalizedFields command issuer subject))) := by
  simp only [canonicalCommandPayload, require_bind_eq_ok, pure_eq_ok, Except.ok.injEq,
    exists_prop]
  rw [eq_comm (a := payload)]

def commandRequestHash (canonicalPayload : List Nat) : Digest := sha256 canonicalPayload

/-- The complete input of an atomic command transaction. -/
structure NormalizedCommand where
  command : AccountCommand
  commandId : UUID
  correlationId : UUID
  issuer : String
  subject : String
  canonicalPayload : List Nat
  requestHash : Digest
  issuer_ok : issuer ≠ ""
  subject_ok : subject ≠ ""
  payload_ok : ∃ text, canonicalPayload = utf8 text
  hash_ok : requestHash = commandRequestHash canonicalPayload

/-- Build the request passed to the unit of work. -/
def normalizeCommand (command : AccountCommand) (commandId correlationId : UUID)
    (issuer subject : String) : Except PyError NormalizedCommand :=
  match hpayload : canonicalCommandPayload command issuer subject with
  | .error e => .error e
  | .ok payload =>
    have h := canonicalCommandPayload_eq_ok.mp hpayload
    .ok ⟨command, commandId, correlationId, issuer, subject, payload, commandRequestHash payload,
      h.1, h.2.1, ⟨_, h.2.2⟩, rfl⟩

theorem normalizeCommand_eq_ok {command : AccountCommand} {commandId correlationId : UUID}
    {issuer subject : String} {request : NormalizedCommand} :
    normalizeCommand command commandId correlationId issuer subject = .ok request ↔
      request.command = command ∧ request.commandId = commandId ∧
        request.correlationId = correlationId ∧ request.issuer = issuer ∧
        request.subject = subject ∧
        canonicalCommandPayload command issuer subject = .ok request.canonicalPayload := by
  rw [normalizeCommand]
  split
  next e he => simp [he]
  next payload he =>
    constructor
    · intro h
      cases h
      exact ⟨rfl, rfl, rfl, rfl, rfl, he⟩
    · obtain ⟨c, cid, corr, iss, sub, p, hash, _, _, _, rfl⟩ := request
      rintro ⟨rfl, rfl, rfl, rfl, rfl, hp⟩
      cases Except.ok.inj (he.symm.trans hp)
      rfl

/-- The request of a command under given claims. -/
def NormalizedCommand.ofCommand (command : AccountCommand) (commandId correlationId : UUID)
    (issuer subject : String) (issuer_ok : issuer ≠ "") (subject_ok : subject ≠ "") :
    NormalizedCommand where
  command := command
  commandId := commandId
  correlationId := correlationId
  issuer := issuer
  subject := subject
  canonicalPayload := utf8 (Json.canonical (.obj (normalizedFields command issuer subject)))
  requestHash := commandRequestHash
    (utf8 (Json.canonical (.obj (normalizedFields command issuer subject))))
  issuer_ok := issuer_ok
  subject_ok := subject_ok
  payload_ok := ⟨_, rfl⟩
  hash_ok := rfl

/-- **A command under non-empty claims normalizes.** -/
theorem normalizeCommand_of (command : AccountCommand) (commandId correlationId : UUID)
    {issuer subject : String} (issuer_ok : issuer ≠ "") (subject_ok : subject ≠ "") :
    normalizeCommand command commandId correlationId issuer subject =
      .ok (.ofCommand command commandId correlationId issuer subject issuer_ok subject_ok) := by
  rw [normalizeCommand_eq_ok, canonicalCommandPayload_eq_ok, NormalizedCommand.ofCommand]
  refine ⟨rfl, rfl, rfl, rfl, rfl, issuer_ok, subject_ok, ?_⟩
  dsimp only

end Cloudscale
