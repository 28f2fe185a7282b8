import Cloudscale.Adapters.ProjectionStore

/-!
# Dead letters

A projection store that can park an event: `deadLetter` claims its id, keeps the
event and advances past it in one transaction, and `redrive` applies a parked
event and deletes its letter in one transaction.  A redrive that fails keeps the
letter, with one attempt more and the fresh error.

The two tiers differ in when a redrive reads the letter, which shows only when
redrives run at the same time; alone they are one function.
-/

namespace Cloudscale

open Checked Python Tables

/-- A row of `dead_letters`, under its event id.  The payload is the dictionary that
`json.loads` makes of the text that `json.dumps` wrote. -/
structure DeadLetter where
  logId : Int
  payload : Dict
  error : PyError
  attempts : Int
  deadLetteredAt : Datetime

structure DeadLetterStore (V : Type) extends ProjectionStore V where
  deadLetters : Table String DeadLetter

inductive RedriveOutcome
  | applied
  | notFound
  | failedAgain
  deriving DecidableEq

/-- `event.get("event_id") or f"missing-event-id:log-{log_id}"`. -/
def letterId (event : Dict) : String :=
  if textOf (event.lookup "event_id") = "" then
    "missing-event-id:log-" ++ toString (intOf (event.lookup "id"))
  else textOf (event.lookup "event_id")

namespace DeadLetterStore

variable {V : Type}

def deadLetterTransaction (event : Dict) (error : PyError) (attempts : Int) (now : Datetime)
    (p : DeadLetterStore V) : Except PyError (DeadLetterStore V) := do
  let store ← p.claim (letterId event)
  let _ ← require ((p.deadLetters.find (letterId event)).isSome = false) PyError.integrityError
  let letter : DeadLetter := ⟨intOf (event.lookup "id"), event, error, attempts, now⟩
  pure { store.advanceOffset (intOf (event.lookup "id")) with
    deadLetters := p.deadLetters.put (letterId event) letter }

/-- `dead_letter`: whether the event was parked, and the store afterwards. -/
def deadLetter (event : Dict) (error : PyError) (attempts : Int) (now : Datetime)
    (p : DeadLetterStore V) : Except PyError Bool × DeadLetterStore V :=
  if attempts < 1 then (.error (.valueError "attempts must be at least 1"), p)
  else
    match deadLetterTransaction event error attempts now p with
    | .ok p' => (.ok true, p')
    | .error .integrityError =>
      (.ok false, { p with lastId := max p.lastId (intOf (event.lookup "id")) })
    | .error e => (.error e, p)

def redriveTransaction (tier : Tier V) (eventId : String) (letter : DeadLetter)
    (p : DeadLetterStore V) : Except PyError (DeadLetterStore V) := do
  let event ← adaptLegacyEvent letter.payload
  let readModels ← p.readModels.applyToBalance tier event
  pure { p with readModels := readModels, deadLetters := p.deadLetters.erase eventId }

def redrive (tier : Tier V) (eventId : String) (now : Datetime) (p : DeadLetterStore V) :
    RedriveOutcome × DeadLetterStore V :=
  match p.deadLetters.find eventId with
  | none => (.notFound, p)
  | some letter =>
    match redriveTransaction tier eventId letter p with
    | .ok p' => (.applied, p')
    | .error error =>
      (.failedAgain, { p with
        deadLetters := p.deadLetters.put eventId
          { letter with attempts := letter.attempts + 1, error := error, deadLetteredAt := now } })

end DeadLetterStore

end Cloudscale
