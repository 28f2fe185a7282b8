import Cloudscale.Processes.ParallelConsuming
import Cloudscale.Processes.SqliteConsumer
import Cloudscale.Projection.Interrupted

/-!
# What rows say of the events

`Books` is what committed rows of the consumer on SQLite say: which events they have applied,
in their order, and which they have parked.  Nothing is said of events that were hit, whose
attempt has raised and left its claim pending.

`Kept` is about the rows that the connection sees, above those that are committed, since an
attempt goes on in whatever transaction the last one has left.  An attempt that is committed
keeps it (`Kept.apply`), and so does one that is hit (`Kept.interrupt`), a letter
(`Kept.park`), and a call that finds its event claimed (`Kept.pass`).
-/

namespace Cloudscale

open Checked Python SqliteInteger Sessions Connections

variable {feed : ConsumerFeed} {T : Type}

/-! ### The read models of a list of events -/

namespace ConsumerFeed

/-- The read models with one more event applied. -/
def project (feed : ConsumerFeed) (models : ReadModels SqliteNumber) (place : feed.Place) :
    ReadModels SqliteNumber :=
  match adaptLegacyEvent (feed.current place) with
  | .error _ => models
  | .ok event => (models.applyToBalance sqliteTier event).toOption.getD models

/-- The read models with some events applied one after the other. -/
def projectAll (feed : ConsumerFeed) (places : List feed.Place) : ReadModels SqliteNumber :=
  places.foldl feed.project .empty

/-- The event has a statement on the row. -/
def Touches (feed : ConsumerFeed) (place : feed.Place) (key : RowKey) : Prop :=
  ∃ st ∈ gatedStatements (feed.current place), st.key = key

theorem executeAll_project (place : feed.Place) (models : ReadModels SqliteNumber) :
    sqliteDialect.database.executeAll (gatedStatements (feed.current place)) models.rows =
      .ok (feed.project models place).rows := by
  rw [gatedStatements, project]
  cases hadapt : adaptLegacyEvent (feed.current place) with
  | error e => rfl
  | ok event =>
    obtain ⟨effect, heffect⟩ := projectionEffect_of_adapted hadapt
    obtain ⟨rows, hrows⟩ := sqlite_executeAll_ok
      (fun st hst => Or.inl (ofModels_of_statements (d := sqliteDialect) hst)) models.rows
    have hstatements := executeAll_statements sqlite_renders heffect models
    show sqliteDialect.database.executeAll (sqliteDialect.statements event) models.rows = _
    rw [hrows] at hstatements
    cases happly : models.applyToBalance sqliteTier event with
    | error e =>
      rw [happly] at hstatements
      cases hstatements
    | ok models' =>
      rw [happly] at hstatements
      dsimp only
      rw [hrows, hstatements, happly]
      rfl

/-- A row of the read models after an attempt, from the row before it. -/
theorem row_of_applied {place : feed.Place} {models : ReadModels SqliteNumber} {key : RowKey}
    (hkey : key.OfModels) {id : String} {rows rows' : Rows (RowValue SqliteNumber)}
    (hrow : rows key = models.rows key)
    (h : sqliteDialect.database.executeAll (.claim id :: behindClaim (feed.current place)) rows =
      .ok rows') : rows' key = (feed.project models place).rows key := by
  obtain ⟨claim, -, h⟩ := executeAll_cons_ok.mp h
  rw [behindClaim, executeAll_append] at h
  obtain ⟨between, hmodels, hadvance⟩ := bind_eq_ok.mp h
  have hclaim : key ≠ .processedEvent id := fun heq => by
    rw [heq] at hkey
    exact hkey
  have hoffset : key ≠ .consumerOffset := fun heq => by
    rw [heq] at hkey
    exact hkey
  rw [executeAll_frame hadvance fun st hst => by
    rw [List.mem_singleton.mp hst]
    exact Ne.symm hoffset]
  refine executeAll_row hmodels (executeAll_project place models) ?_
  rw [← hrow]
  exact Function.update_of_ne hclaim _ _

theorem le_of_positionOf {place place' : feed.Place}
    (h : positionOf (feed.event place) ≤ positionOf (feed.event place')) : place ≤ place' :=
  le_of_not_gt fun hlt => absurd (feed.positionOf_lt_iff.mpr hlt) (not_lt_of_ge h)

theorem eq_of_letterId {place place' : feed.Place}
    (h : letterId (feed.event place) = letterId (feed.event place')) : place = place' := by
  have hevent : feed.event place = feed.event place' :=
    List.inj_on_of_nodup_map feed.distinct (List.get_mem _ _) (List.get_mem _ _) h
  exact List.nodup_iff_injective_get.mp (List.Nodup.of_map _ feed.distinct) hevent

end ConsumerFeed

namespace SqliteConsumer

/-! ### Books -/

/-- **What rows say of the events**: those of one list were applied, in order, and those of
another are parked.  Of the rows and claims of events that were hit nothing is said. -/
structure Books (feed : ConsumerFeed) (hit : List feed.Place) (rows : Rows (RowValue SqliteNumber))
    (applied parked : List feed.Place) : Prop where
  inOrder : applied.Pairwise (· < ·)
  once : (applied ++ parked).Nodup
  claimed : ∀ place ∈ applied ++ parked, Claimed rows (letterId (feed.event place))
  listed : ∀ place, Claimed rows (letterId (feed.event place)) →
    place ∈ applied ++ parked ∨ place ∈ hit
  behind : ∀ place ∈ applied ++ parked, positionOf (feed.event place) ≤ offsetOf rows
  hasOffset : (rows .consumerOffset).isSome
  letters : ∀ place, payloadAt rows (letterId (feed.event place)) =
    if place ∈ parked then some (feed.event place) else none
  models : ∀ key : RowKey, key.OfModels → (∀ place ∈ hit, ¬ feed.Touches place key) →
    rows key = (feed.projectAll applied).rows key

/-- The event is claimed for good, or it was hit. -/
def Done (hit : List feed.Place) (base : Rows (RowValue SqliteNumber)) (place : feed.Place) :
    Prop :=
  Claimed base (letterId (feed.event place)) ∨ place ∈ hit

/-- Rows that the connection sees, above those that are committed. -/
structure Kept (hit : List feed.Place) (base rows : Rows (RowValue SqliteNumber)) : Prop where
  books : ∃ applied parked, Books feed hit rows applied parked
  claims : ∀ id, Claimed base id → Claimed rows id
  offset : offsetOf base ≤ offsetOf rows
  claimed : ∀ place, Claimed rows (letterId (feed.event place)) → Done hit base place
  passed : ∀ place, positionOf (feed.event place) ≤ offsetOf rows → Done hit base place

/-- Rows are committed in which the event of a place is done, and whatever was. -/
structure Passed (hit : List feed.Place) (base rows' : Rows (RowValue SqliteNumber))
    (place : feed.Place) : Prop where
  kept : Kept hit rows' rows'
  done : ∀ other, Done hit base other ∨ other = place → Done hit rows' other
  offset : offsetOf rows' ≤ positionOf (feed.event place)

section Rows

variable {hit hit' : List feed.Place} {base rows rows' : Rows (RowValue SqliteNumber)}
  {place : feed.Place} {applied parked : List feed.Place}

theorem Done.mono (h : Done hit base place) (hsubset : hit ⊆ hit') : Done hit' base place :=
  h.imp_right fun hmem => hsubset hmem

/-- The same claims and letters, an offset that is no smaller, and the rows of the read models
as far as no event was hit. -/
theorem Books.of_same (h : Books feed hit rows applied parked) (hsubset : hit ⊆ hit')
    (hclaims : ∀ place, Claimed rows' (letterId (feed.event place)) →
      Claimed rows (letterId (feed.event place)) ∨ place ∈ hit')
    (hkeeps : ∀ id, Claimed rows id → Claimed rows' id)
    (hoffset : offsetOf rows ≤ offsetOf rows') (hsome : (rows' .consumerOffset).isSome)
    (hletters : ∀ id, rows' (.deadLetter id) = rows (.deadLetter id))
    (hmodels : ∀ key : RowKey, key.OfModels → (∀ place ∈ hit', ¬ feed.Touches place key) →
      rows' key = rows key) : Books feed hit' rows' applied parked where
  inOrder := h.inOrder
  once := h.once
  claimed place hmem := hkeeps _ (h.claimed place hmem)
  listed place hplace := by
    rcases hclaims place hplace with hclaimed | hmem
    · exact (h.listed place hclaimed).imp_right fun hmem => hsubset hmem
    · exact Or.inr hmem
  behind place hmem := (h.behind place hmem).trans hoffset
  hasOffset := hsome
  letters place := by
    rw [payloadAt, hletters]
    exact h.letters place
  models key hkey huntouched := by
    rw [hmodels key hkey huntouched]
    exact h.models key hkey fun place hmem => huntouched place (hsubset hmem)

theorem Kept.mono (h : Kept hit base rows) (hsubset : hit ⊆ hit') : Kept hit' base rows where
  books := by
    obtain ⟨applied, parked, hbooks⟩ := h.books
    exact ⟨applied, parked, hbooks.of_same hsubset (fun _ hplace => Or.inl hplace)
      (fun _ hid => hid) le_rfl hbooks.hasOffset (fun _ => rfl) fun _ _ _ => rfl⟩
  claims := h.claims
  offset := h.offset
  claimed place hplace := (h.claimed place hplace).mono hsubset
  passed place hplace := (h.passed place hplace).mono hsubset

/-! ### The offset -/

theorem offsetOf_advanced (hsome : (rows .consumerOffset).isSome) (logId : Int) :
    offsetOf (advanced logId rows) = max (offsetOf rows) logId ∧
      (advanced logId rows .consumerOffset).isSome := by
  obtain ⟨lastId, hlastId⟩ := Option.isSome_iff_exists.mp hsome
  have hself : advanced logId rows .consumerOffset = some (max lastId logId : Int) := by
    rw [advanced, Function.update_self, hlastId]
    rfl
  unfold offsetOf
  rw [hself, hlastId]
  exact ⟨rfl, rfl⟩

theorem claimed_advanced {logId : Int} {id : String} :
    Claimed (advanced logId rows) id ↔ Claimed rows id := by
  unfold Claimed
  rw [advanced, Function.update_of_ne (by simp)]

/-- The offset is advanced to an event that is done, like all before it. -/
theorem Kept.advance (h : Kept hit base rows) (hbefore : ∀ earlier < place, Done hit base earlier)
    (hself : Done hit base place) :
    Kept hit base (advanced (positionOf (feed.event place)) rows) := by
  obtain ⟨applied, parked, hbooks⟩ := h.books
  obtain ⟨hoffset, hsome⟩ := offsetOf_advanced hbooks.hasOffset (positionOf (feed.event place))
  have hle : offsetOf rows ≤ offsetOf (advanced (positionOf (feed.event place)) rows) := by
    rw [hoffset]
    exact le_max_left _ _
  refine ⟨⟨applied, parked, hbooks.of_same (List.Subset.refl _)
    (fun _ hplace => Or.inl (claimed_advanced.mp hplace)) (fun _ hid => claimed_advanced.mpr hid)
    hle hsome (fun id => Function.update_of_ne (by simp) _ _) fun key hkey _ =>
      Function.update_of_ne (fun heq => by rw [heq] at hkey; exact hkey) _ _⟩,
    fun id hid => claimed_advanced.mpr (h.claims id hid), h.offset.trans hle,
    fun place' hplace' => h.claimed place' (claimed_advanced.mp hplace'), fun place' hplace' => ?_⟩
  rw [hoffset] at hplace'
  rcases le_max_iff.mp hplace' with hpassed | hupto
  · exact h.passed place' hpassed
  · rcases eq_or_lt_of_le (ConsumerFeed.le_of_positionOf hupto) with rfl | hlt
    · exact hself
    · exact hbefore place' hlt

theorem Kept.rebase {base' : Rows (RowValue SqliteNumber)} (h : Kept hit base rows)
    (hclaims : ∀ id, Claimed base' id ↔ Claimed base id)
    (hoffset : offsetOf base' ≤ offsetOf rows) :
    Kept hit base' rows where
  books := h.books
  claims id hid := h.claims id ((hclaims id).mp hid)
  offset := hoffset
  claimed place hplace := (h.claimed place hplace).imp_left (hclaims _).mpr
  passed place hplace := (h.passed place hplace).imp_left (hclaims _).mpr

theorem Passed.of_kept (h : Kept hit rows' rows')
    (hkeeps : ∀ id, Claimed base id → Claimed rows' id)
    (hself : Claimed rows' (letterId (feed.event place)))
    (hoffset : offsetOf rows' = positionOf (feed.event place)) : Passed hit base rows' place where
  kept := h
  done other hother := by
    rcases hother with hdone | rfl
    · exact hdone.imp_left (hkeeps _)
    · exact Or.inl hself
  offset := hoffset.le

theorem Kept.offset_advanced_le (h : Kept hit base rows)
    (hahead : offsetOf rows ≤ positionOf (feed.event place)) :
    offsetOf (advanced (positionOf (feed.event place)) rows) ≤ positionOf (feed.event place) := by
  obtain ⟨applied, parked, hbooks⟩ := h.books
  rw [(offsetOf_advanced hbooks.hasOffset _).1]
  exact max_le hahead le_rfl

/-- **A call that finds its event claimed** advances the offset of the committed rows. -/
theorem Kept.pass (h : Kept hit base base) (hbefore : ∀ earlier < place, Done hit base earlier)
    (hself : Done hit base place) (hahead : offsetOf base ≤ positionOf (feed.event place)) :
    Passed hit base (advanced (positionOf (feed.event place)) base) place where
  kept := (h.advance hbefore hself).rebase (fun _ => claimed_advanced) le_rfl
  done other hother := by
    have hdone : Done hit base other := by
      rcases hother with hdone | rfl
      · exact hdone
      · exact hself
    exact hdone.imp_left claimed_advanced.mpr
  offset := h.offset_advanced_le hahead

theorem Kept.claimed_of_letter (h : Kept hit base rows)
    (hletter : (rows (.deadLetter (letterId (feed.event place)))).isSome) :
    Claimed rows (letterId (feed.event place)) := by
  obtain ⟨applied, parked, hbooks⟩ := h.books
  have hparked : place ∈ parked := by
    by_contra hnot
    have hnone := hbooks.letters place
    rw [if_neg hnot, payloadAt, Option.map_eq_none_iff] at hnone
    rw [hnone] at hletter
    cases hletter
  exact hbooks.claimed place (List.mem_append_right _ hparked)

end Rows

/-! ### Attempts -/

section Attempts

variable {hit hit' : List feed.Place} {base rows rows' : Rows (RowValue SqliteNumber)}
  {place : feed.Place} {id : String} {done left : List (ProjectionStatement SqliteBalance)}

theorem ne_of_ofModels {key key' : RowKey} (h : key.OfModels) (h' : ¬ key'.OfModels) : key ≠ key' :=
  fun heq => h' (heq ▸ h)

theorem unclaimed_of_run {row : Option (RowValue SqliteNumber (.processedEvent id))}
    (h : sqliteDialect.database.run (.claim id) (rows (.processedEvent id)) = .ok row) :
    ¬ Claimed rows id ∧ row = some () := by
  change (if (rows (.processedEvent id)).isSome then Except.error PyError.integrityError
    else Except.ok (some ())) = _ at h
  split at h
  next => cases h
  next hnone =>
    cases h
    exact ⟨hnone, rfl⟩

/-- What a claim and statements behind it leave of claims and letters. -/
theorem claims_of_executeAll (hkeys : ∀ st ∈ done, st.key.OfModels ∨ st.key = .consumerOffset)
    (h : sqliteDialect.database.executeAll (.claim id :: done) rows = .ok rows') :
    ¬ Claimed rows id ∧ (∀ id', Claimed rows' id' ↔ id' = id ∨ Claimed rows id') ∧
      ∀ id', rows' (.deadLetter id') = rows (.deadLetter id') := by
  obtain ⟨row, hrun, hothers⟩ := executeAll_cons_ok.mp h
  have hframe : ∀ key : RowKey, ¬ key.OfModels → key ≠ .consumerOffset →
      rows' key = Function.update rows (.processedEvent id) row key := by
    intro key hmodels hoffset
    refine executeAll_frame hothers fun st hst heq => ?_
    rcases hkeys st hst with hkey | hkey
    · exact hmodels (heq ▸ hkey)
    · exact hoffset (heq ▸ hkey)
  obtain ⟨hunclaimed, rfl⟩ := unclaimed_of_run hrun
  refine ⟨hunclaimed, fun id' => ?_, fun id' => ?_⟩
  · unfold Claimed
    rw [hframe (.processedEvent id') (fun h => h) (by simp), update_claim]
    split
    next heq => exact ⟨fun _ => Or.inl heq, fun _ => rfl⟩
    next hne => exact ⟨Or.inr, fun h => h.resolve_left hne⟩
  · rw [hframe (.deadLetter id') (fun h => h) (by simp)]
    exact Function.update_of_ne (by simp) _ _

theorem offset_of_all (hsome : (rows .consumerOffset).isSome)
    (h : sqliteDialect.database.executeAll (.claim id :: behindClaim (feed.current place)) rows =
      .ok rows') : (rows' .consumerOffset).isSome ∧
      offsetOf rows' = max (offsetOf rows) (positionOf (feed.event place)) := by
  rw [behindClaim, ← List.cons_append, executeAll_append] at h
  obtain ⟨between, hmodels, hadvance⟩ := bind_eq_ok.mp h
  have hsame : between .consumerOffset = rows .consumerOffset := by
    refine executeAll_frame hmodels fun st hst => ?_
    rcases List.mem_cons.mp hst with rfl | hst
    · exact (by simp : RowKey.processedEvent id ≠ .consumerOffset)
    · exact ne_of_ofModels (gatedStatements_keys hst) fun h => h
  cases hadvance
  obtain ⟨hoffset, hadvanced⟩ := offsetOf_advanced (hsame ▸ hsome)
    (intOf ((feed.current place).lookup "id"))
  refine ⟨hadvanced, hoffset.trans ?_⟩
  rw [offsetOf_of_eq hsame, ← feed.positionOf_current place]
  rfl

/-- The first statements of an attempt leave the offset, or advance it. -/
theorem offset_of_some (hsome : (rows .consumerOffset).isSome)
    (hsts : behindClaim (feed.current place) = done ++ left)
    (h : sqliteDialect.database.executeAll (.claim id :: done) rows = .ok rows') :
    (rows' .consumerOffset).isSome ∧
      AdvancedTo (positionOf (feed.event place)) rows rows' := by
  rcases List.eq_nil_or_concat' left with rfl | ⟨left, last, rfl⟩
  · rw [List.append_nil] at hsts
    rw [← hsts] at h
    exact ⟨(offset_of_all hsome h).1, Or.inr (offset_of_all hsome h).2⟩
  · rw [behindClaim, ← List.append_assoc] at hsts
    have hgated := (List.append_inj' hsts rfl).1
    have hsame : rows' .consumerOffset = rows .consumerOffset := by
      refine executeAll_frame h fun st hst => ?_
      rcases List.mem_cons.mp hst with rfl | hst
      · exact (by simp : RowKey.processedEvent id ≠ .consumerOffset)
      · exact ne_of_ofModels (@gatedStatements_keys (feed.current place) st
          (by rw [hgated]; exact List.mem_append_left _ hst)) fun h => h
    exact ⟨hsame ▸ hsome, Or.inl (offsetOf_of_eq hsame)⟩

/-- **An attempt that is committed.** -/
theorem Kept.apply (h : Kept hit base rows) (hbefore : ∀ earlier < place, Done hit base earlier)
    (hahead : offsetOf rows ≤ positionOf (feed.event place))
    (hall : sqliteDialect.database.executeAll
      (.claim (letterId (feed.event place)) :: behindClaim (feed.current place)) rows = .ok rows') :
    Passed hit base rows' place := by
  obtain ⟨applied, parked, hbooks⟩ := h.books
  obtain ⟨hunclaimed, hclaims, hletters⟩ :=
    claims_of_executeAll (fun _ hst => behindClaim_keys hst) hall
  obtain ⟨hsome, hoffset⟩ := offset_of_all hbooks.hasOffset hall
  rw [max_eq_right hahead] at hoffset
  have hnew : place ∉ applied ++ parked := fun hmem => hunclaimed (hbooks.claimed place hmem)
  have hkeeps : ∀ id, Claimed base id → Claimed rows' id := fun id hid =>
    (hclaims id).mpr (Or.inr (h.claims id hid))
  have hself : Claimed rows' (letterId (feed.event place)) := (hclaims _).mpr (Or.inl rfl)
  refine .of_kept ⟨⟨applied ++ [place], parked, ?_⟩, fun _ hid => hid, le_rfl,
    fun _ hclaimed => Or.inl hclaimed, fun earlier hpassed => ?_⟩ hkeeps hself hoffset
  · have hbehind : ∀ earlier ∈ applied ++ parked, earlier < place := by
      intro earlier hmem
      have hle := (hbooks.behind earlier hmem).trans hahead
      have hne : earlier ≠ place := fun heq => hnew (heq ▸ hmem)
      exact lt_of_le_of_ne (ConsumerFeed.le_of_positionOf hle) hne
    have hmem_iff : ∀ earlier, earlier ∈ applied ++ [place] ++ parked ↔
        earlier = place ∨ earlier ∈ applied ++ parked := by
      intro earlier
      simp only [List.mem_append, List.mem_singleton]
      tauto
    refine ⟨?_, ?_, fun earlier hmem => ?_, fun earlier hclaimed => ?_, fun earlier hmem => ?_,
      hsome, fun earlier => ?_, fun key hkey huntouched => ?_⟩
    · refine List.pairwise_append.mpr ⟨hbooks.inOrder, List.pairwise_singleton _ _, ?_⟩
      intro earlier hmem place' hplace'
      rw [List.mem_singleton.mp hplace']
      exact hbehind earlier (List.mem_append_left _ hmem)
    · rw [List.append_assoc]
      exact (List.nodup_middle).mpr (List.nodup_cons.mpr ⟨hnew, hbooks.once⟩)
    · rcases (hmem_iff earlier).mp hmem with rfl | hmem
      · exact hself
      · exact (hclaims _).mpr (Or.inr (hbooks.claimed earlier hmem))
    · rcases (hclaims _).mp hclaimed with heq | hclaimed
      · exact Or.inl ((hmem_iff earlier).mpr (Or.inl (ConsumerFeed.eq_of_letterId heq)))
      · exact (hbooks.listed earlier hclaimed).imp_left fun hmem =>
          (hmem_iff earlier).mpr (Or.inr hmem)
    · rw [hoffset]
      rcases (hmem_iff earlier).mp hmem with rfl | hmem
      · exact le_rfl
      · exact (hbooks.behind earlier hmem).trans hahead
    · rw [payloadAt, hletters]
      exact hbooks.letters earlier
    · rw [ConsumerFeed.projectAll, List.foldl_concat]
      exact ConsumerFeed.row_of_applied hkey (hbooks.models key hkey huntouched) hall
  · rw [hoffset] at hpassed
    rcases eq_or_lt_of_le (ConsumerFeed.le_of_positionOf hpassed) with rfl | hlt
    · exact Or.inl hself
    · exact (hbefore earlier hlt).imp_left (hkeeps _)

/-- **An attempt that is hit.** -/
theorem Kept.interrupt (h : Kept hit base rows) (hbefore : ∀ earlier < place, Done hit base earlier)
    (hsts : behindClaim (feed.current place) = done ++ left)
    (hdone : sqliteDialect.database.executeAll (.claim (letterId (feed.event place)) :: done) rows =
      .ok rows') :
    Kept (place :: hit) base rows' ∧ AdvancedTo (positionOf (feed.event place)) rows rows' ∧
      Claimed rows' (letterId (feed.event place)) ∧
      ¬ Claimed base (letterId (feed.event place)) := by
  obtain ⟨applied, parked, hbooks⟩ := h.books
  obtain ⟨hunclaimed, hclaims, hletters⟩ :=
    claims_of_executeAll (behindClaim_keys_of_append hsts) hdone
  obtain ⟨hsome, hadvanced⟩ := offset_of_some hbooks.hasOffset hsts hdone
  have hsubset : hit ⊆ place :: hit := List.subset_cons_self _ _
  have hself : Done (place :: hit) base place := Or.inr List.mem_cons_self
  refine ⟨⟨⟨applied, parked, hbooks.of_same hsubset (fun earlier hclaimed => ?_) (fun id hid =>
    (hclaims id).mpr (Or.inr hid)) hadvanced.le hsome hletters fun key hkey huntouched => ?_⟩,
    fun id hid => (hclaims id).mpr (Or.inr (h.claims id hid)), h.offset.trans hadvanced.le,
    fun earlier hclaimed => ?_, fun earlier hpassed => ?_⟩, hadvanced, (hclaims _).mpr (Or.inl rfl),
    fun hbase => hunclaimed (h.claims _ hbase)⟩
  · rcases (hclaims _).mp hclaimed with heq | hclaimed
    · exact Or.inr (by rw [ConsumerFeed.eq_of_letterId heq]; exact List.mem_cons_self)
    · exact Or.inl hclaimed
  · refine executeAll_frame hdone fun st hst heq => ?_
    rcases List.mem_cons.mp hst with rfl | hst
    · exact @ne_of_ofModels key (.processedEvent _) hkey (fun h => h) heq.symm
    · have hmem : st ∈ behindClaim (feed.current place) := by
        rw [hsts]
        exact List.mem_append_left _ hst
      rcases List.mem_append.mp hmem with hmem | hmem
      · exact huntouched place List.mem_cons_self ⟨st, hmem, heq⟩
      · rw [List.mem_singleton.mp hmem] at heq
        exact @ne_of_ofModels key .consumerOffset hkey (fun h => h) heq.symm
  · rcases (hclaims _).mp hclaimed with heq | hclaimed
    · rw [ConsumerFeed.eq_of_letterId heq]
      exact hself
    · exact (h.claimed earlier hclaimed).mono hsubset
  · have hor : positionOf (feed.event earlier) ≤ offsetOf rows ∨
        positionOf (feed.event earlier) ≤ positionOf (feed.event place) := by
      rcases hadvanced with hsame | hmax
      · exact Or.inl (hsame ▸ hpassed)
      · exact le_max_iff.mp (hmax ▸ hpassed)
    rcases hor with hpassed | hupto
    · exact (h.passed earlier hpassed).mono hsubset
    · rcases eq_or_lt_of_le (ConsumerFeed.le_of_positionOf hupto) with rfl | hlt
      · exact hself
      · exact (hbefore earlier hlt).mono hsubset

/-! ### Letters -/

/-- The rows with a claim and a letter under it. -/
def lettered (id : String) (letter : DeadLetter) (rows : Rows (RowValue SqliteNumber)) :
    Rows (RowValue SqliteNumber) :=
  Function.update (Function.update rows (.processedEvent id) (some ())) (.deadLetter id)
    (some letter)

theorem rows_of_letter {letter : DeadLetter} {logId : Int}
    (h : sqliteDialect.database.executeAll
      [.claim id, .insertLetter id letter, .advanceOffset logId] rows = .ok rows') :
    ¬ Claimed rows id ∧ rows' = advanced logId (lettered id letter rows) := by
  obtain ⟨claim, hclaim, h⟩ := executeAll_cons_ok.mp h
  obtain ⟨inserted, hinsert, h⟩ := executeAll_cons_ok.mp h
  obtain ⟨hunclaimed, rfl⟩ := unclaimed_of_run hclaim
  obtain rfl : inserted = some letter := by
    change (if Option.isSome _ then Except.error PyError.integrityError
      else Except.ok (some letter)) = _ at hinsert
    split at hinsert
    next => cases hinsert
    next =>
      cases hinsert
      rfl
  exact ⟨hunclaimed, (Except.ok.inj h).symm⟩

theorem claimed_lettered {letter : DeadLetter} {id' : String} :
    Claimed (lettered id letter rows) id' ↔ id' = id ∨ Claimed rows id' := by
  unfold Claimed
  rw [lettered, Function.update_of_ne (by simp), update_claim]
  split
  next heq => exact ⟨fun _ => Or.inl heq, fun _ => rfl⟩
  next hne => exact ⟨Or.inr, fun h => h.resolve_left hne⟩

theorem consumerOffset_lettered (letter : DeadLetter) :
    lettered id letter rows .consumerOffset = rows .consumerOffset := by
  rw [lettered, Function.update_of_ne (by simp), Function.update_of_ne (by simp)]

theorem offset_of_letter (hsome : (rows .consumerOffset).isSome) (letter : DeadLetter)
    (logId : Int) :
    offsetOf (advanced logId (lettered id letter rows)) = max (offsetOf rows) logId ∧
      (advanced logId (lettered id letter rows) .consumerOffset).isSome := by
  have hsame : lettered id letter rows .consumerOffset = rows .consumerOffset :=
    consumerOffset_lettered letter
  rw [← offsetOf_of_eq hsame]
  exact offsetOf_advanced (hsame ▸ hsome) logId

/-- **A letter that is committed.** -/
theorem Kept.park (h : Kept hit base rows) (hbefore : ∀ earlier < place, Done hit base earlier)
    (hahead : offsetOf rows ≤ positionOf (feed.event place)) {letter : DeadLetter}
    (hletter : letter.payload = feed.event place)
    (hall : sqliteDialect.database.executeAll [.claim (letterId (feed.event place)),
      .insertLetter (letterId (feed.event place)) letter,
      .advanceOffset (positionOf (feed.event place))] rows = .ok rows') :
    Passed hit base rows' place := by
  obtain ⟨applied, parked, hbooks⟩ := h.books
  obtain ⟨hunclaimed, hrows'⟩ := rows_of_letter hall
  obtain ⟨hoffset, hsome⟩ := @offset_of_letter rows (letterId (feed.event place)) hbooks.hasOffset
    letter (positionOf (feed.event place))
  rw [← hrows', max_eq_right hahead] at hoffset
  rw [← hrows'] at hsome
  have hothers : ∀ key, key ≠ .consumerOffset → key ≠ .deadLetter (letterId (feed.event place)) →
      key ≠ .processedEvent (letterId (feed.event place)) → rows' key = rows key := by
    intro key hoffset hdead hprocessed
    rw [hrows', advanced, Function.update_of_ne hoffset, lettered, Function.update_of_ne hdead,
      Function.update_of_ne hprocessed]
  have hclaims : ∀ id', Claimed rows' id' ↔
      id' = letterId (feed.event place) ∨ Claimed rows id' := by
    intro id'
    rw [hrows', claimed_advanced]
    exact claimed_lettered
  have hletters : ∀ id', payloadAt rows' id' =
      if id' = letterId (feed.event place) then some (feed.event place)
      else payloadAt rows id' := by
    intro id'
    unfold payloadAt
    split
    next heq =>
      subst heq
      rw [hrows', advanced, Function.update_of_ne (by simp), lettered, Function.update_self,
        ← hletter]
      rfl
    next hne => rw [hothers (.deadLetter id') (by simp) (by simpa using hne) (by simp)]
  have hself : Claimed rows' (letterId (feed.event place)) := (hclaims _).mpr (Or.inl rfl)
  have hnew : place ∉ applied ++ parked := fun hmem => hunclaimed (hbooks.claimed place hmem)
  have hmem_iff : ∀ earlier, earlier ∈ applied ++ (parked ++ [place]) ↔
      earlier = place ∨ earlier ∈ applied ++ parked := by
    intro earlier
    simp only [List.mem_append, List.mem_singleton]
    tauto
  have hkeeps : ∀ id, Claimed base id → Claimed rows' id := fun id hid =>
    (hclaims id).mpr (Or.inr (h.claims id hid))
  refine .of_kept ⟨⟨applied, parked ++ [place], hbooks.inOrder, ?_, fun earlier hmem => ?_,
    fun earlier hclaimed => ?_, fun earlier hmem => ?_, hsome, fun earlier => ?_,
    fun key hkey huntouched => ?_⟩, fun _ hid => hid, le_rfl, fun _ hclaimed => Or.inl hclaimed,
    fun earlier hpassed => ?_⟩ hkeeps hself hoffset
  · rw [← List.append_assoc]
    exact (List.nodup_append_comm).mpr (List.nodup_cons.mpr ⟨hnew, hbooks.once⟩)
  · rcases (hmem_iff earlier).mp hmem with rfl | hmem
    · exact hself
    · exact (hclaims _).mpr (Or.inr (hbooks.claimed earlier hmem))
  · rcases (hclaims _).mp hclaimed with heq | hclaimed
    · exact Or.inl ((hmem_iff earlier).mpr (Or.inl (ConsumerFeed.eq_of_letterId heq)))
    · exact (hbooks.listed earlier hclaimed).imp_left fun hmem =>
        (hmem_iff earlier).mpr (Or.inr hmem)
  · rw [hoffset]
    rcases (hmem_iff earlier).mp hmem with rfl | hmem
    · exact le_rfl
    · exact (hbooks.behind earlier hmem).trans hahead
  · rw [hletters]
    by_cases heq : earlier = place
    · subst heq
      rw [if_pos rfl, if_pos (by simp)]
    · rw [if_neg fun h => heq (ConsumerFeed.eq_of_letterId h), hbooks.letters]
      exact if_congr (by simp [heq]) rfl rfl
  · rw [hothers key (ne_of_ofModels hkey fun h => h) (ne_of_ofModels hkey fun h => h)
      (ne_of_ofModels hkey fun h => h)]
    exact hbooks.models key hkey huntouched
  · rw [hoffset] at hpassed
    rcases eq_or_lt_of_le (ConsumerFeed.le_of_positionOf hpassed) with rfl | hlt
    · exact Or.inl hself
    · exact (hbefore earlier hlt).imp_left (hkeeps _)

end Attempts

end SqliteConsumer

end Cloudscale
