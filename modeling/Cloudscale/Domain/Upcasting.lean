import Cloudscale.Domain.Events
import Cloudscale.Lib.Tables

/-!
# Upcasting

A stored event carries the schema version it was written with; `upcast` applies
the registered steps from that version to the current one.  The table of current
versions and the registry are arguments: `currentSchemaVersions` and the empty
`registeredSteps` are those of this build, whose every type is in its first
shape, so a row it wrote is only stamped again (`upcast_current`).
-/

namespace Cloudscale

open Checked

abbrev Upcaster := Dict → Except PyError Dict

/-- Steps by event type and the version they start from. -/
abbrev UpcasterRegistry := List ((String × Int) × Upcaster)

/-- `CURRENT_SCHEMA_VERSION`, by the name of the type. -/
def currentSchemaVersions : List (String × Int) :=
  EventType.all.map (fun t => (t.text, currentSchemaVersion t))

/-- `_REGISTRY`: no type has a step yet. -/
def registeredSteps : UpcasterRegistry := []

/-- `dict[key] = value`. -/
def setItem {α : Type} (key : String) (value : α) : List (String × α) → List (String × α)
  | [] => [(key, value)]
  | m :: ms => if m.1 = key then (key, value) :: ms else m :: setItem key value ms

theorem lookup_setItem {α : Type} (key : String) (value : α) (k : String) :
    ∀ dict : List (String × α),
      (setItem key value dict).lookup k = if k = key then some value else dict.lookup k := by
  intro dict
  induction dict with
  | nil => exact Tables.lookup_cons_ite k (key, value) []
  | cons m dict ih =>
    rw [setItem]
    by_cases hm : m.1 = key
    · rw [if_pos hm, Tables.lookup_cons_ite, Tables.lookup_cons_ite, hm]
      split <;> rfl
    · rw [if_neg hm, Tables.lookup_cons_ite, Tables.lookup_cons_ite, ih]
      by_cases hk : k = m.1
      · rw [if_pos hk, if_pos hk, if_neg (hk ▸ hm)]
      · rw [if_neg hk, if_neg hk]

theorem setItem_of_lookup {α : Type} {key : String} {value : α} : ∀ {dict : List (String × α)},
    dict.lookup key = some value → setItem key value dict = dict := by
  intro dict
  induction dict with
  | nil => intro h; cases h
  | cons m dict ih =>
    intro h
    rw [Tables.lookup_cons_ite] at h
    rw [setItem]
    by_cases hm : key = m.1
    · rw [if_pos hm, Option.some.injEq] at h
      rw [if_pos hm.symm, hm, ← h]
    · rw [if_neg hm] at h
      rw [if_neg (Ne.symm hm), ih h]

/-- `repr` of a plain value. -/
def pyRepr : Option Json → String
  | none | some .null => "None"
  | some (.str text) => "'" ++ text ++ "'"
  | some (.surrogates _) => "'...'"
  | some (.int n) => toString n
  | some (.bool true) => "True"
  | some (.bool false) => "False"
  | some (.float literal) => literal
  | some (.arr _) => "[...]"
  | some (.obj _) | some (.oddObj _) => "{...}"

/-- The stored version as an integer; a Boolean is one, and absent means 1. -/
def storedVersion : Option Json → Option Int
  | none => some 1
  | some (.int n) => some n
  | some (.bool b) => some (if b then 1 else 0)
  | _ => none

/-- Apply `k` steps, from `version` on. -/
def upcastSteps (registry : UpcasterRegistry) (eventType : String) :
    Nat → Int → Dict → Except PyError Dict
  | 0, _, current => .ok current
  | k + 1, version, current =>
    match registry.lookup (eventType, version) with
    | none => .error (.unknownSchemaVersion
        s!"no upcaster registered for {eventType} v{version} -> v{version + 1}")
    | some step => do
      let current ← step current
      upcastSteps registry eventType k (version + 1) current

def upcast (versions : List (String × Int)) (registry : UpcasterRegistry) (event : Dict) :
    Except PyError Dict :=
  let unknown := PyError.unknownSchemaVersion
    ("unknown event type " ++ pyRepr (event.lookup "type"))
  match event.lookup "type" with
  | some (.str eventType) =>
    match versions.lookup eventType with
    | none => .error unknown
    | some target =>
      let invalid := PyError.unknownSchemaVersion
        (eventType ++ ": invalid schema_version " ++ pyRepr (event.lookup "schema_version"))
      match storedVersion (event.lookup "schema_version") with
      | none => .error invalid
      | some version =>
        if version < 1 then .error invalid
        else if version > target then
          .error (.unknownSchemaVersion
            (s!"{eventType} v{version} is newer than this build's v{target}; " ++
              "upgrade the service before reading this event"))
        else do
          let current ← upcastSteps registry eventType (target - version).toNat version event
          pure (setItem "schema_version" (.int target) current)
  | _ => .error unknown

theorem lookup_currentSchemaVersions (t : EventType) :
    currentSchemaVersions.lookup t.text = some (currentSchemaVersion t) := by
  cases t <;> rfl

theorem upcast_current {event : Dict} {t : EventType} (htype : event.lookup "type" = some (.str t.text))
    (hversion : event.lookup "schema_version" = some (.int (currentSchemaVersion t))) :
    upcast currentSchemaVersions registeredSteps event =
      .ok (setItem "schema_version" (.int (currentSchemaVersion t)) event) := by
  have hone : ¬ currentSchemaVersion t < 1 := by
    rw [currentSchemaVersion]
    decide
  have hle : ¬ currentSchemaVersion t > currentSchemaVersion t := lt_irrefl _
  simp only [upcast, htype, lookup_currentSchemaVersions, hversion, storedVersion, if_neg hone,
    if_neg hle, sub_self, Int.toNat_zero, upcastSteps, ok_bind]
  rfl

end Cloudscale
