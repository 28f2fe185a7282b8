import Mathlib.Data.List.Dedup
import Mathlib.Data.List.Perm.Subperm

/-!
# Tables with a primary key

A `Table` keeps its rows under keys, at most one under each.  `put` replaces the
row under a key or appends it, and every statement of a store is `put` under a
condition: `putNew` inserts and ignores a conflict, `modify` updates, `erase`
deletes.  What a table is to its readers is `find`, and each operation has one
lemma on it.

Two tables have the same rows (`SameRows`) when `find` agrees, in whatever order
the rows were put.
-/

namespace Tables

theorem lookup_cons_ite {κ α : Type} [DecidableEq κ] (k : κ) (e : κ × α) (es : List (κ × α)) :
    (e :: es).lookup k = if k = e.1 then some e.2 else es.lookup k := by
  by_cases hk : k = e.1
  · rw [if_pos hk, List.lookup_cons, beq_iff_eq.mpr hk]
  · rw [if_neg hk, List.lookup_cons, beq_eq_false_iff_ne.mpr hk]

/-- Rows under keys, at most one under each. -/
structure Table (κ α : Type) where
  entries : List (κ × α)
  nodup : (entries.map Prod.fst).Nodup

namespace Table

variable {κ α : Type} [DecidableEq κ]

def empty : Table κ α := ⟨[], List.nodup_nil⟩

def find (t : Table κ α) (k : κ) : Option α := t.entries.lookup k

/-- The entries with the row under a key replaced, or appended. -/
def putEntry (k : κ) (a : α) : List (κ × α) → List (κ × α)
  | [] => [(k, a)]
  | e :: es => if e.1 = k then (k, a) :: es else e :: putEntry k a es

theorem keys_putEntry (k : κ) (a : α) (es : List (κ × α)) :
    (putEntry k a es).map Prod.fst =
      if k ∈ es.map Prod.fst then es.map Prod.fst else es.map Prod.fst ++ [k] := by
  induction es with
  | nil => rfl
  | cons e es ih =>
    rw [putEntry]
    by_cases he : e.1 = k
    · rw [if_pos he, if_pos (by simp [he])]
      simp [he]
    · rw [if_neg he, List.map_cons, ih, List.map_cons]
      by_cases hk : k ∈ es.map Prod.fst
      · rw [if_pos hk, if_pos (List.mem_cons_of_mem _ hk)]
      · rw [if_neg hk, if_neg (by simpa [Ne.symm he] using hk)]
        rfl

theorem nodup_putEntry {k : κ} {a : α} {es : List (κ × α)} (h : (es.map Prod.fst).Nodup) :
    ((putEntry k a es).map Prod.fst).Nodup := by
  rw [keys_putEntry]
  split
  next => exact h
  next hk => exact h.append (List.nodup_singleton k) (by simpa using hk)

/-- Replace the row under a key, or append it. -/
def put (t : Table κ α) (k : κ) (a : α) : Table κ α := ⟨putEntry k a t.entries, nodup_putEntry t.nodup⟩

def putNew (t : Table κ α) (k : κ) (a : α) : Table κ α :=
  if (t.find k).isSome then t else t.put k a

/-- Update the row under a key, if there is one. -/
def modify (t : Table κ α) (k : κ) (f : α → α) : Table κ α :=
  match t.find k with
  | none => t
  | some a => t.put k (f a)

def erase (t : Table κ α) (k : κ) : Table κ α :=
  ⟨t.entries.filter (fun e => e.1 ≠ k), t.nodup.sublist (List.filter_sublist.map _)⟩

/-- Put every row of another table. -/
def putAll (t rows : Table κ α) : Table κ α := rows.entries.foldr (fun e t => t.put e.1 e.2) t

/-- The rows changed, each under its key. -/
def map {β : Type} (t : Table κ α) (f : α → β) : Table κ β where
  entries := t.entries.map fun e => (e.1, f e.2)
  nodup := by
    rw [List.map_map]
    exact t.nodup

variable (t : Table κ α) (k l : κ) (a : α)

@[simp] theorem find_empty : (empty : Table κ α).find k = none := rfl

@[simp] theorem find_put : (t.put k a).find l = if l = k then some a else t.find l := by
  show (putEntry k a t.entries).lookup l = if l = k then some a else t.entries.lookup l
  induction t.entries with
  | nil => exact lookup_cons_ite l (k, a) []
  | cons e es ih =>
    rw [putEntry]
    by_cases he : e.1 = k
    · rw [if_pos he, lookup_cons_ite, lookup_cons_ite, he]
      split <;> rfl
    · rw [if_neg he, lookup_cons_ite, lookup_cons_ite, ih]
      by_cases hl : l = e.1
      · rw [if_pos hl, if_pos hl, if_neg (hl ▸ he)]
      · rw [if_neg hl, if_neg hl]

theorem find_putAll (rows : Table κ α) : (t.putAll rows).find l = (rows.find l).or (t.find l) := by
  show (rows.entries.foldr (fun e t => t.put e.1 e.2) t).find l = (rows.entries.lookup l).or (t.find l)
  induction rows.entries with
  | nil => rfl
  | cons e es ih =>
    rw [List.foldr_cons, find_put, ih, lookup_cons_ite]
    split <;> rfl

theorem find_putNew : (t.putNew k a).find l =
    if l = k then some ((t.find k).getD a) else t.find l := by
  rw [putNew]
  cases hk : t.find k with
  | none =>
    rw [if_neg (by simp), find_put]
    rfl
  | some b =>
    rw [if_pos Option.isSome_some]
    split
    next hl => rw [hl, hk]; rfl
    next => rfl

theorem find_modify (f : α → α) : (t.modify k f).find l =
    if l = k then (t.find k).map f else t.find l := by
  rw [modify]
  cases hk : t.find k with
  | none =>
    show t.find l = _
    split
    next hl => rw [hl, hk]; rfl
    next => rfl
  | some b =>
    show (t.put k (f b)).find l = _
    rw [find_put]
    rfl

theorem find_map {β : Type} (f : α → β) : (t.map f).find k = (t.find k).map f := by
  show (t.entries.map fun e => (e.1, f e.2)).lookup k = (t.entries.lookup k).map f
  induction t.entries with
  | nil => rfl
  | cons e es ih =>
    rw [List.map_cons, lookup_cons_ite, lookup_cons_ite, ih]
    split <;> rfl

theorem find_erase : (t.erase k).find l = if l = k then none else t.find l := by
  show (t.entries.filter (fun e => e.1 ≠ k)).lookup l = if l = k then none else t.entries.lookup l
  induction t.entries with
  | nil => simp
  | cons e es ih =>
    by_cases he : e.1 = k
    · rw [List.filter_cons_of_neg (by simpa using he), ih, lookup_cons_ite, he]
      split <;> rfl
    · rw [List.filter_cons_of_pos (by simpa using he), lookup_cons_ite, lookup_cons_ite, ih]
      by_cases hl : l = e.1
      · rw [if_pos hl, if_pos hl, if_neg (hl ▸ he)]
      · rw [if_neg hl, if_neg hl]

theorem sublist_eraseAll : ∀ (ks : List κ) (t : Table κ α),
    (ks.foldl erase t).entries.Sublist t.entries := by
  intro ks
  induction ks with
  | nil => exact fun t => List.Sublist.refl _
  | cons k ks ih => exact fun t => (ih (t.erase k)).trans List.filter_sublist

omit [DecidableEq κ] in
theorem eq_of_length_le {t t' : Table κ α} (h : t.entries.Sublist t'.entries)
    (hle : t'.entries.length ≤ t.entries.length) : t = t' := by
  have hentries := h.eq_of_length_le hle
  cases t
  cases t'
  cases hentries
  rfl

theorem mem_entries_iff {t : Table κ α} {k : κ} {a : α} : (k, a) ∈ t.entries ↔ t.find k = some a := by
  obtain ⟨entries, nodup⟩ := t
  show (k, a) ∈ entries ↔ entries.lookup k = some a
  induction entries with
  | nil => exact ⟨(fun h => nomatch h), (fun h => nomatch h)⟩
  | cons e es ih =>
    obtain ⟨l, b⟩ := e
    rw [List.map_cons, List.nodup_cons] at nodup
    rw [List.mem_cons, lookup_cons_ite, ih nodup.2]
    by_cases hk : k = l
    · subst hk
      rw [if_pos rfl, Option.some.injEq]
      refine ⟨fun h => ?_, fun h => Or.inl (congrArg (Prod.mk k) h.symm)⟩
      rcases h with h | h
      · exact (Prod.mk.inj h).2.symm
      · exact absurd (List.mem_map_of_mem (f := Prod.fst) ((ih nodup.2).mpr h)) nodup.1
    · rw [if_neg hk]
      exact ⟨fun h => h.resolve_left fun heq => hk (Prod.mk.inj heq).1, Or.inr⟩

theorem find_eraseAll : ∀ (ks : List κ) (t : Table κ α), (ks.foldl erase t).find l =
    if l ∈ ks then none else t.find l := by
  intro ks
  induction ks with
  | nil => exact fun t => (if_neg List.not_mem_nil).symm
  | cons k ks ih =>
    intro t
    rw [List.foldl_cons, ih, find_erase]
    by_cases hk : l = k
    · rw [if_pos hk, ite_self, if_pos (List.mem_cons.mpr (Or.inl hk))]
    · rw [if_neg hk]
      simp only [List.mem_cons, hk, false_or]

theorem mem_keys_put {t : Table κ α} {k l : κ} {a : α} :
    l ∈ (t.put k a).entries.map Prod.fst ↔ l = k ∨ l ∈ t.entries.map Prod.fst := by
  show l ∈ (putEntry k a t.entries).map Prod.fst ↔ _
  rw [keys_putEntry]
  split
  next hk =>
    refine ⟨Or.inr, fun h => h.elim (fun heq => ?_) id⟩
    rw [heq]
    exact hk
  next => rw [List.mem_append, List.mem_singleton, or_comm]

theorem length_le_of_keys {t : Table κ α} {ks : List κ} (h : t.entries.map Prod.fst ⊆ ks) :
    t.entries.length ≤ ks.dedup.length := by
  have hsub : t.entries.map Prod.fst ⊆ ks.dedup := fun k hk => List.mem_dedup.mpr (h hk)
  have hle := (List.Nodup.subperm t.nodup hsub).length_le
  rwa [List.length_map] at hle

def SameRows (t t' : Table κ α) : Prop := ∀ k, t.find k = t'.find k

variable {t} {t' : Table κ α}

theorem SameRows.perm (h : SameRows t t') : t.entries.Perm t'.entries := by
  rw [List.perm_ext_iff_of_nodup t.nodup.of_map t'.nodup.of_map]
  rintro ⟨k, a⟩
  rw [mem_entries_iff, mem_entries_iff, h]

end Table

end Tables
