import Cloudscale.Domain.Upcasting

/-!
# The chain of an upcast

`registerUpcaster` adds a step to the registry, and `Registered` are the registries that
accepted calls build.  `Chain registry t v w d e` says that the registered steps of a type,
from version `v` up to `w`, take the mapping `d` to `e`, one step for each version.

An event that the table of versions reads (`ReadAs`) is upcast by its chain and stamped
(`upcast_eq_ok`); what stops a chain is a missing step or an error of a step
(`upcast_eq_error`).  The loop of the source ends after as many steps as there are
versions between (`upcastLoop_eq`).
-/

namespace Cloudscale

open Checked

/-! ### The registry -/

/-- `register_upcaster(event_type, from_version)(fn)`. -/
def registerUpcaster (versions : List (String × Int)) (eventType : String) (fromVersion : Int)
    (fn : Upcaster) (registry : UpcasterRegistry) : Except PyError UpcasterRegistry :=
  match versions.lookup eventType with
  | none => .error (.valueError ("unknown event type " ++ pyRepr (some (.str eventType))))
  | some target => do
    let _ ← require (1 ≤ fromVersion ∧ fromVersion < target) (PyError.valueError
      s!"{eventType} step from v{fromVersion} is outside 1..{target - 1}")
    let _ ← require (registry.lookup (eventType, fromVersion) = none) (PyError.valueError
      s!"upcaster already registered for ({pyRepr (some (.str eventType))}, {fromVersion})")
    pure (registry ++ [((eventType, fromVersion), fn)])

/-- A step that keeps the type of the event. -/
def KeepsType (fn : Upcaster) : Prop :=
  ∀ event event', fn event = .ok event' → event'.lookup "type" = event.lookup "type"

/-- The registries that accepted calls build of such steps. -/
inductive Registered (versions : List (String × Int)) : UpcasterRegistry → Prop
  | nil : Registered versions []
  | register {registry registry' : UpcasterRegistry} {eventType : String} {fromVersion : Int}
      {fn : Upcaster} (before : Registered versions registry) (keeps : KeepsType fn)
      (accepted : registerUpcaster versions eventType fromVersion fn registry = .ok registry') :
      Registered versions registry'

theorem registerUpcaster_eq_ok {versions : List (String × Int)} {registry registry' : UpcasterRegistry}
    {eventType : String} {fromVersion : Int} {fn : Upcaster}
    (h : registerUpcaster versions eventType fromVersion fn registry = .ok registry') :
    (∃ target, versions.lookup eventType = some target ∧ 1 ≤ fromVersion ∧ fromVersion < target) ∧
      registry.lookup (eventType, fromVersion) = none ∧
      registry' = registry ++ [((eventType, fromVersion), fn)] := by
  unfold registerUpcaster at h
  split at h
  next => cases h
  next target htarget =>
    simp only [require_bind_eq_ok] at h
    obtain ⟨hrange, hfresh, h⟩ := h
    cases h
    exact ⟨⟨target, htarget, hrange⟩, hfresh, rfl⟩

/-- Every step that is found was registered, so it keeps the type. -/
theorem Registered.keepsType {versions : List (String × Int)} {registry : UpcasterRegistry}
    (h : Registered versions registry) :
    ∀ {key : String × Int} {fn : Upcaster}, registry.lookup key = some fn → KeepsType fn := by
  induction h with
  | nil => intro key fn hfn; cases hfn
  | register before keeps accepted ih =>
    intro key fn hfn
    obtain ⟨-, -, rfl⟩ := registerUpcaster_eq_ok accepted
    rw [List.lookup_append] at hfn
    rcases Option.or_eq_some_iff.mp hfn with hold | ⟨-, hnew⟩
    · exact ih hold
    · rw [List.lookup_cons] at hnew
      split at hnew
      next => cases hnew; exact keeps
      next => cases hnew

/-! ### Chains -/

/-- The registered steps of a type from one version up to another take `d` to `e`. -/
inductive Chain (registry : UpcasterRegistry) (eventType : String) : Int → Int → Dict → Dict → Prop
  | refl (v : Int) (d : Dict) : Chain registry eventType v v d d
  | step {v w : Int} {d e f : Dict} {fn : Upcaster}
      (registered : registry.lookup (eventType, v) = some fn) (returns : fn d = .ok e)
      (rest : Chain registry eventType (v + 1) w e f) : Chain registry eventType v w d f

def noUpcaster (eventType : String) (version : Int) : PyError :=
  .unknownSchemaVersion s!"no upcaster registered for {eventType} v{version} -> v{version + 1}"

/-- The chain stops at a version: its step is missing, or raises. -/
def StopsAt (registry : UpcasterRegistry) (eventType : String) (w : Int) (d : Dict)
    (error : PyError) : Prop :=
  (registry.lookup (eventType, w) = none ∧ error = noUpcaster eventType w) ∨
    ∃ fn, registry.lookup (eventType, w) = some fn ∧ fn d = .error error

section

variable {versions : List (String × Int)} {registry : UpcasterRegistry} {eventType : String}
  {v w target : Int} {d e f : Dict} {error : PyError}

theorem Chain.le (h : Chain registry eventType v w d e) : v ≤ w := by
  induction h with
  | refl v d => exact le_refl v
  | step _ _ _ ih => omega

theorem Chain.keepsType (hreg : Registered versions registry)
    (h : Chain registry eventType v w d e) : e.lookup "type" = d.lookup "type" := by
  induction h with
  | refl v d => rfl
  | step registered returns rest ih => rw [ih, hreg.keepsType registered _ _ returns]

/-- **A chain can be left at any version and resumed there.** -/
theorem Chain.resume (h : Chain registry eventType v w d e) (hle : w ≤ target) :
    upcastSteps registry eventType (target - v).toNat v d =
      upcastSteps registry eventType (target - w).toNat w e := by
  induction h with
  | refl v d => rfl
  | @step v w d e f fn registered returns rest ih =>
    have hlt := rest.le
    have hcount : (target - v).toNat = (target - (v + 1)).toNat + 1 := by omega
    rw [hcount, upcastSteps, registered]
    simp only [returns, ok_bind]
    exact ih hle

theorem Chain.upcastSteps (h : Chain registry eventType v w d e) :
    upcastSteps registry eventType (w - v).toNat v d = .ok e := by
  rw [h.resume le_rfl, sub_self]
  rfl

theorem chain_of_ok : ∀ {k : ℕ} {v : Int} {d e : Dict},
    upcastSteps registry eventType k v d = .ok e → Chain registry eventType v (v + k) d e := by
  intro k
  induction k with
  | zero =>
    intro v d e h
    cases h
    rw [Int.natCast_zero, add_zero]
    exact .refl v d
  | succ k ih =>
    intro v d e h
    rw [Cloudscale.upcastSteps] at h
    split at h
    next => cases h
    next fn hfn =>
      obtain ⟨d', hd', h⟩ := bind_eq_ok.mp h
      have hrest := ih h
      rw [show v + ((k + 1 : ℕ) : Int) = v + 1 + k by omega]
      exact .step hfn hd' hrest

/-- **Steps that end in an error stop at a version that the chain reached.** -/
theorem stopsAt_of_error : ∀ {k : ℕ} {v : Int} {d : Dict},
    upcastSteps registry eventType k v d = .error error →
      ∃ w f, Chain registry eventType v w d f ∧ w < v + k ∧ StopsAt registry eventType w f error := by
  intro k
  induction k with
  | zero => intro v d h; cases h
  | succ k ih =>
    intro v d h
    rw [Cloudscale.upcastSteps] at h
    split at h
    next hnone =>
      exact ⟨v, d, .refl v d, by omega, Or.inl ⟨hnone, (Except.error.inj h).symm⟩⟩
    next fn hfn =>
      rcases bind_eq_error.mp h with herror | ⟨d', hd', h⟩
      · exact ⟨v, d, .refl v d, by omega, Or.inr ⟨fn, hfn, herror⟩⟩
      · obtain ⟨w, f, hchain, hlt, hstop⟩ := ih h
        exact ⟨w, f, .step hfn hd' hchain, by omega, hstop⟩

theorem Chain.raises (h : Chain registry eventType v w d e) (hlt : w < target)
    (hstop : StopsAt registry eventType w e error) :
    Cloudscale.upcastSteps registry eventType (target - v).toNat v d = .error error := by
  have hcount : (target - w).toNat = (target - (w + 1)).toNat + 1 := by omega
  rw [h.resume hlt.le, hcount, Cloudscale.upcastSteps]
  rcases hstop with ⟨hnone, rfl⟩ | ⟨fn, hfn, herror⟩
  · rw [hnone]
    rfl
  · simp only [hfn, herror, error_bind]

/-- A chain has a step from every version that it passes. -/
theorem Chain.registered (h : Chain registry eventType v w d e) :
    ∀ {u : Int}, v ≤ u → u < w → registry.lookup (eventType, u) ≠ none := by
  induction h with
  | refl v d => intro u hle hlt; omega
  | @step v w d e f fn registered returns rest ih =>
    intro u hle hlt
    by_cases hu : u = v
    · rw [hu, registered]
      exact Option.some_ne_none fn
    · exact ih (by omega) hlt

end

/-! ### The loop -/

/-- The loop of `upcast`, for as many rounds as the fuel lasts. -/
def upcastLoop (registry : UpcasterRegistry) (eventType : String) (target : Int) :
    ℕ → Int → Dict → Option (Except PyError Dict)
  | 0, _, _ => none
  | fuel + 1, version, current =>
    if version < target then
      match registry.lookup (eventType, version) with
      | none => some (.error (noUpcaster eventType version))
      | some step =>
        match step current with
        | .error error => some (.error error)
        | .ok current => upcastLoop registry eventType target fuel (version + 1) current
    else some (.ok current)

/-- **The loop ends** after one round for each version up to the current one. -/
theorem upcastLoop_eq (registry : UpcasterRegistry) (eventType : String) (target : Int) :
    ∀ {fuel : ℕ} {v : Int} {d : Dict}, (target - v).toNat < fuel →
      upcastLoop registry eventType target fuel v d =
        some (upcastSteps registry eventType (target - v).toNat v d) := by
  intro fuel
  induction fuel with
  | zero => intro v d h; cases h
  | succ fuel ih =>
    intro v d h
    rw [upcastLoop]
    by_cases hlt : v < target
    · have hcount : (target - v).toNat = (target - (v + 1)).toNat + 1 := by omega
      rw [if_pos hlt, hcount, upcastSteps]
      cases registry.lookup (eventType, v) with
      | none => rfl
      | some fn =>
        cases hstep : fn d with
        | error error => simp only [hstep, error_bind]
        | ok e =>
          simp only [hstep, ok_bind]
          exact ih (by omega)
    · have hcount : (target - v).toNat = 0 := by omega
      rw [if_neg hlt, hcount]
      rfl

/-! ### An event -/

/-- The table does not read the event: its type is unknown, its stored version is no
integer of at least 1, or it is newer than the current one. -/
def Refused (versions : List (String × Int)) (event : Dict) : Prop :=
  (∀ eventType, event.lookup "type" = some (.str eventType) → versions.lookup eventType = none) ∨
  (∀ version, storedVersion (event.lookup "schema_version") = some version → version < 1) ∨
  ∃ eventType target version, event.lookup "type" = some (.str eventType) ∧
    versions.lookup eventType = some target ∧
    storedVersion (event.lookup "schema_version") = some version ∧ target < version

/-- The table reads the event as one of a type, from a stored version to the current one. -/
structure ReadAs (versions : List (String × Int)) (event : Dict) (eventType : String)
    (version target : Int) : Prop where
  type : event.lookup "type" = some (.str eventType)
  current : versions.lookup eventType = some target
  stored : storedVersion (event.lookup "schema_version") = some version
  one_le : 1 ≤ version
  le_current : version ≤ target

section

variable {versions : List (String × Int)} {registry : UpcasterRegistry} {event : Dict}
  {eventType : String} {version target : Int}

theorem exists_readAs (h : ¬ Refused versions event) :
    ∃ eventType version target, ReadAs versions event eventType version target := by
  simp only [Refused, not_or, not_forall, not_exists, not_and, not_lt] at h
  obtain ⟨⟨eventType, htype, hknown⟩, ⟨version, hstored, hone⟩, hnewer⟩ := h
  obtain ⟨target, htarget⟩ := Option.ne_none_iff_exists'.mp hknown
  exact ⟨eventType, version, target, htype, htarget, hstored, hone,
    hnewer eventType target version htype htarget hstored⟩

theorem ReadAs.not_refused (h : ReadAs versions event eventType version target) :
    ¬ Refused versions event := by
  rintro (hunknown | hinvalid | ⟨eventType', target', version', htype, htarget, hstored, hlt⟩)
  · have := hunknown eventType h.type
    rw [h.current] at this
    cases this
  · have := hinvalid version h.stored
    exact absurd h.one_le (not_le.mpr this)
  · rw [h.type, Option.some.injEq, Json.str.injEq] at htype
    rw [← htype, h.current, Option.some.injEq] at htarget
    rw [h.stored, Option.some.injEq] at hstored
    have := h.le_current
    omega

theorem Refused.raises (h : Refused versions event) (registry : UpcasterRegistry) :
    ∃ message, upcast versions registry event = .error (.unknownSchemaVersion message) := by
  unfold upcast
  cases htype : event.lookup "type" with
  | none => exact ⟨_, rfl⟩
  | some value =>
    cases value with
    | str eventType =>
      cases hknown : versions.lookup eventType with
      | none => simp only [hknown]; exact ⟨_, rfl⟩
      | some target =>
        cases hstored : storedVersion (event.lookup "schema_version") with
        | none => simp only [hknown]; exact ⟨_, rfl⟩
        | some version =>
          simp only [hknown]
          by_cases hone : version < 1
          · rw [if_pos hone]
            exact ⟨_, rfl⟩
          · by_cases hnewer : version > target
            · rw [if_neg hone, if_pos hnewer]
              exact ⟨_, rfl⟩
            · have hread : ReadAs versions event eventType version target :=
                ⟨htype, hknown, hstored, not_lt.mp hone, not_lt.mp hnewer⟩
              exact absurd h hread.not_refused
    | _ => exact ⟨_, rfl⟩

/-- **What the table reads is taken through the steps and stamped.** -/
theorem ReadAs.upcast (h : ReadAs versions event eventType version target)
    (registry : UpcasterRegistry) : upcast versions registry event =
      setItem "schema_version" (.int target) <$>
        upcastSteps registry eventType (target - version).toNat version event := by
  have hone : ¬ version < 1 := not_lt.mpr h.one_le
  have hnewer : ¬ version > target := not_lt.mpr h.le_current
  simp only [Cloudscale.upcast, h.type, h.current, h.stored, if_neg hone, if_neg hnewer]
  cases upcastSteps registry eventType (target - version).toNat version event <;> rfl

theorem ReadAs.upcast_eq_ok (h : ReadAs versions event eventType version target) {result : Dict} :
    Cloudscale.upcast versions registry event = .ok result ↔
      ∃ d, Chain registry eventType version target event d ∧
        result = setItem "schema_version" (.int target) d := by
  have hcount : version + ((target - version).toNat : Int) = target := by
    have := h.le_current
    omega
  rw [h.upcast registry, map_eq_ok]
  constructor
  · rintro ⟨d, hd, rfl⟩
    have hchain := chain_of_ok hd
    rw [hcount] at hchain
    exact ⟨d, hchain, rfl⟩
  · rintro ⟨d, hchain, rfl⟩
    exact ⟨d, hchain.upcastSteps, rfl⟩

theorem ReadAs.upcast_eq_error (h : ReadAs versions event eventType version target)
    {error : PyError} : Cloudscale.upcast versions registry event = .error error ↔
      ∃ w d, Chain registry eventType version w event d ∧ w < target ∧
        StopsAt registry eventType w d error := by
  have hcount : version + ((target - version).toNat : Int) = target := by
    have := h.le_current
    omega
  rw [h.upcast registry]
  constructor
  · intro herror
    cases hsteps : upcastSteps registry eventType (target - version).toNat version event with
    | ok d => rw [hsteps] at herror; cases herror
    | error e =>
      rw [hsteps] at herror
      cases herror
      obtain ⟨w, d, hchain, hlt, hstop⟩ := stopsAt_of_error hsteps
      exact ⟨w, d, hchain, by omega, hstop⟩
  · rintro ⟨w, d, hchain, hlt, hstop⟩
    rw [hchain.raises hlt hstop]
    rfl

/-- A result is read as what it is: an event of its type in the current version. -/
theorem ReadAs.result (hreg : Registered versions registry)
    (h : ReadAs versions event eventType version target) {d : Dict}
    (hchain : Chain registry eventType version target event d) :
    ReadAs versions (setItem "schema_version" (.int target) d) eventType target target := by
  refine ⟨?_, h.current, ?_, h.one_le.trans h.le_current, le_rfl⟩
  · rw [lookup_setItem, if_neg (by decide), hchain.keepsType hreg, h.type]
  · rw [lookup_setItem, if_pos rfl]
    rfl

/-- **A second upcast changes nothing.** -/
theorem ReadAs.upcast_idem (hreg : Registered versions registry)
    (h : ReadAs versions event eventType version target) {result : Dict}
    (hresult : Cloudscale.upcast versions registry event = .ok result) :
    Cloudscale.upcast versions registry result = .ok result := by
  obtain ⟨d, hchain, rfl⟩ := h.upcast_eq_ok.mp hresult
  refine (h.result hreg hchain).upcast_eq_ok.mpr ⟨_, .refl _ _, ?_⟩
  refine (setItem_of_lookup ?_).symm
  rw [lookup_setItem, if_pos rfl]

/-- Where no step raises, only a missing step stops the chain. -/
theorem ReadAs.missing_iff (h : ReadAs versions event eventType version target)
    (htotal : ∀ key fn, registry.lookup key = some fn → ∀ d, ∃ e, fn d = .ok e) :
    (∃ message, Cloudscale.upcast versions registry event = .error (.unknownSchemaVersion message)) ↔
      ∃ w, version ≤ w ∧ w < target ∧ registry.lookup (eventType, w) = none := by
  constructor
  · rintro ⟨message, herror⟩
    obtain ⟨w, d, hchain, hlt, ⟨hnone, -⟩ | ⟨fn, hfn, hraises⟩⟩ := h.upcast_eq_error.mp herror
    · exact ⟨w, hchain.le, hlt, hnone⟩
    · obtain ⟨e, he⟩ := htotal _ fn hfn d
      rw [he] at hraises
      cases hraises
  · intro hmissing
    cases hresult : Cloudscale.upcast versions registry event with
    | ok result =>
      obtain ⟨d, hchain, -⟩ := h.upcast_eq_ok.mp hresult
      obtain ⟨w, hle, hlt, hnone⟩ := hmissing
      exact absurd hnone (hchain.registered hle hlt)
    | error error =>
      obtain ⟨w, d, -, -, ⟨-, rfl⟩ | ⟨fn, hfn, hraises⟩⟩ := h.upcast_eq_error.mp hresult
      · exact ⟨_, rfl⟩
      · obtain ⟨e, he⟩ := htotal _ fn hfn d
        rw [he] at hraises
        cases hraises

end

/-- `upcast` itself refuses exactly the events that the table does not read and those whose
chain reaches a missing step; a step may raise the same error. -/
theorem unknownVersion_iff {versions : List (String × Int)} {registry : UpcasterRegistry}
    {event : Dict} :
    (∃ message, upcast versions registry event = .error (.unknownSchemaVersion message)) ↔
      Refused versions event ∨
      ∃ eventType version target, ReadAs versions event eventType version target ∧
        ∃ w d, Chain registry eventType version w event d ∧ w < target ∧
          (registry.lookup (eventType, w) = none ∨
            ∃ fn message, registry.lookup (eventType, w) = some fn ∧
              fn d = .error (.unknownSchemaVersion message)) := by
  constructor
  · rintro ⟨message, herror⟩
    by_cases hrefused : Refused versions event
    · exact Or.inl hrefused
    · obtain ⟨eventType, version, target, hread⟩ := exists_readAs hrefused
      obtain ⟨w, d, hchain, hlt, hstop⟩ := hread.upcast_eq_error.mp herror
      refine Or.inr ⟨eventType, version, target, hread, w, d, hchain, hlt, ?_⟩
      rcases hstop with ⟨hnone, -⟩ | ⟨fn, hfn, hraises⟩
      · exact Or.inl hnone
      · exact Or.inr ⟨fn, message, hfn, hraises⟩
  · rintro (hrefused | ⟨eventType, version, target, hread, w, d, hchain, hlt, hstop⟩)
    · exact hrefused.raises registry
    · rcases hstop with hnone | ⟨fn, message, hfn, hraises⟩
      · exact ⟨_, hread.upcast_eq_error.mpr ⟨w, d, hchain, hlt, Or.inl ⟨hnone, rfl⟩⟩⟩
      · exact ⟨message, hread.upcast_eq_error.mpr ⟨w, d, hchain, hlt, Or.inr ⟨fn, hfn, hraises⟩⟩⟩

/-- **Upcasting composes the registered steps.**  An event is refused for what it is, for a
missing step, or with the error of a step; else the loop ends with its chain applied, which
is stamped, is not changed by a second upcast, and can be cut at every version. -/
theorem upcast_composes {versions : List (String × Int)} {registry : UpcasterRegistry}
    (hreg : Registered versions registry) (event : Dict) :
    ((∃ message, upcast versions registry event = .error (.unknownSchemaVersion message)) ↔
      Refused versions event ∨
      ∃ eventType version target, ReadAs versions event eventType version target ∧
        ∃ w d, Chain registry eventType version w event d ∧ w < target ∧
          (registry.lookup (eventType, w) = none ∨
            ∃ fn message, registry.lookup (eventType, w) = some fn ∧
              fn d = .error (.unknownSchemaVersion message))) ∧
    ∀ eventType version target, ReadAs versions event eventType version target →
      (∃ fuel, upcastLoop registry eventType target fuel version event =
        some (upcastSteps registry eventType (target - version).toNat version event)) ∧
      ((∀ key fn, registry.lookup key = some fn → ∀ d, ∃ e, fn d = .ok e) →
        ((∃ message, upcast versions registry event = .error (.unknownSchemaVersion message)) ↔
          ∃ w, version ≤ w ∧ w < target ∧ registry.lookup (eventType, w) = none)) ∧
      (∀ w d fn error, Chain registry eventType version w event d → w < target →
        registry.lookup (eventType, w) = some fn → fn d = .error error →
          upcast versions registry event = .error error) ∧
      (∀ result, upcast versions registry event = .ok result ↔
        ∃ d, Chain registry eventType version target event d ∧
          result = setItem "schema_version" (.int target) d) ∧
      (∀ result, upcast versions registry event = .ok result →
        upcast versions registry result = .ok result) ∧
      ∀ w d, Chain registry eventType version w event d → w ≤ target →
        upcast versions registry event = setItem "schema_version" (.int target) <$>
          upcastSteps registry eventType (target - w).toNat w d ∧
        (d.lookup "schema_version" = some (.int w) →
          upcast versions registry d = upcast versions registry event) := by
  refine ⟨unknownVersion_iff, fun eventType version target hread => ⟨?_, hread.missing_iff,
    fun w d fn error hchain hlt hfn hraises =>
      hread.upcast_eq_error.mpr ⟨w, d, hchain, hlt, Or.inr ⟨fn, hfn, hraises⟩⟩,
    fun result => hread.upcast_eq_ok, fun result hresult => hread.upcast_idem hreg hresult,
    fun w d hchain hle => ?_⟩⟩
  · exact ⟨_, upcastLoop_eq registry eventType target (Nat.lt_succ_self _)⟩
  · have hcut : upcast versions registry event = setItem "schema_version" (.int target) <$>
        upcastSteps registry eventType (target - w).toNat w d := by
      rw [hread.upcast registry, hchain.resume hle]
    refine ⟨hcut, fun hstamp => ?_⟩
    have hcutAs : ReadAs versions d eventType w target := by
      refine ⟨?_, hread.current, ?_, hread.one_le.trans hchain.le, hle⟩
      · rw [hchain.keepsType hreg, hread.type]
      · rw [hstamp]
        rfl
    rw [hcut, hcutAs.upcast registry]

/-- A deposit of version 1 that gets a currency and then a channel. -/
theorem upcast_composes_deposit :
    let currency : Upcaster := fun event => .ok (setItem "currency" (.str "USD") event)
    let channel : Upcaster := fun event => .ok (setItem "channel" (.str "api") event)
    let registry : UpcasterRegistry := [(("Deposited", 1), currency), (("Deposited", 2), channel)]
    let event : Dict := [("type", .str "Deposited"), ("amount", .int 7)]
    let result : Dict := [("type", .str "Deposited"), ("amount", .int 7), ("currency", .str "USD"),
      ("channel", .str "api"), ("schema_version", .int 3)]
    upcast [("Deposited", 3)] registry event = .ok result ∧
      upcast [("Deposited", 3)] registry result = .ok result := by
  intro currency channel registry event result
  have hkeeps : ∀ key value, key ≠ "type" →
      KeepsType (fun event => .ok (setItem key value event)) := by
    intro key value hkey event event' h
    cases h
    rw [lookup_setItem, if_neg (Ne.symm hkey)]
  have hcurrency : registerUpcaster [("Deposited", 3)] "Deposited" 1 currency [] =
      .ok [(("Deposited", 1), currency)] := rfl
  have hchannel : registerUpcaster [("Deposited", 3)] "Deposited" 2 channel
      [(("Deposited", 1), currency)] = .ok registry := rfl
  have hreg : Registered [("Deposited", 3)] registry :=
    .register (.register .nil (hkeeps "currency" (.str "USD") (by decide)) hcurrency)
      (hkeeps "channel" (.str "api") (by decide)) hchannel
  have hread : ReadAs [("Deposited", 3)] event "Deposited" 1 3 :=
    ⟨rfl, rfl, rfl, by decide, by decide⟩
  obtain ⟨-, -, -, hok, hidem, -⟩ :=
    (upcast_composes hreg event).2 "Deposited" 1 3 hread
  have hresult := (hok result).mpr ⟨_, .step rfl rfl (.step rfl rfl (.refl 3 _)), rfl⟩
  exact ⟨hresult, hidem result hresult⟩

end Cloudscale
