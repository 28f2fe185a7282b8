import Cloudscale.Lib.Runs
import Mathlib.Data.List.Induction

/-!
# At-least-once deliveries

A feed delivers every entry once or more.  `firsts` keeps of a list of deliveries
those whose id is new, in their order.  A consumer that remembers the ids it has
seen ends where it would end on the first deliveries alone: `run_firsts` is the
induction, for any invariant that a new delivery extends and a repeated one keeps.
-/

namespace Deliveries

open Runs

variable {α ι σ : Type} [DecidableEq ι] (key : α → ι)

def addFirst (fs : List α) (d : α) : List α := if key d ∈ fs.map key then fs else fs ++ [d]

def firsts (ds : List α) : List α := run (addFirst key) [] ds

@[simp] theorem firsts_nil : firsts key ([] : List α) = [] := rfl

theorem firsts_concat (ds : List α) (d : α) :
    firsts key (ds ++ [d]) = addFirst key (firsts key ds) d := run_concat _ _ _ _

variable {key}

theorem addFirst_of_mem {fs : List α} {d : α} (h : key d ∈ fs.map key) : addFirst key fs d = fs :=
  if_pos h

theorem addFirst_of_not_mem {fs : List α} {d : α} (h : key d ∉ fs.map key) :
    addFirst key fs d = fs ++ [d] := if_neg h

theorem prefix_addFirst (fs : List α) (d : α) : fs <+: addFirst key fs d := by
  rw [addFirst]
  split
  next => exact List.prefix_rfl
  next => exact List.prefix_append fs [d]

/-- **More deliveries add to the first ones.** -/
theorem isPrefix_firsts (ds ds' : List α) : firsts key ds <+: firsts key (ds ++ ds') := by
  rw [firsts, firsts, run_append]
  exact run_rel (fun _ => List.prefix_rfl) (fun _ _ _ h h' => h.trans h') prefix_addFirst ds' _

theorem mem_map_firsts (i : ι) : ∀ ds : List α, i ∈ (firsts key ds).map key ↔ i ∈ ds.map key := by
  intro ds
  induction ds using List.reverseRecOn with
  | nil => rfl
  | append_singleton ds d ih =>
    rw [firsts_concat, List.map_append, List.mem_append, ← ih, List.map_singleton,
      List.mem_singleton]
    by_cases hd : key d ∈ (firsts key ds).map key
    · rw [addFirst_of_mem hd]
      exact ⟨Or.inl, fun h => h.elim (fun hi => hi) fun hi => hi ▸ hd⟩
    · rw [addFirst_of_not_mem hd, List.map_append, List.mem_append, List.map_singleton,
        List.mem_singleton]

theorem nodup_firsts (ds : List α) : ((firsts key ds).map key).Nodup := by
  induction ds using List.reverseRecOn with
  | nil => exact List.nodup_nil
  | append_singleton ds d ih =>
    rw [firsts_concat]
    by_cases hd : key d ∈ (firsts key ds).map key
    · rwa [addFirst_of_mem hd]
    · rw [addFirst_of_not_mem hd, List.map_append]
      refine List.nodup_append.mpr ⟨ih, List.pairwise_singleton _ _, fun i hi j hj heq => hd ?_⟩
      rw [List.map_singleton, List.mem_singleton] at hj
      rwa [← hj, ← heq]

theorem firsts_of_nodup : ∀ {ds : List α}, (ds.map key).Nodup → firsts key ds = ds := by
  intro ds
  induction ds using List.reverseRecOn with
  | nil => exact fun _ => rfl
  | append_singleton ds d ih =>
    intro h
    rw [List.map_append, List.nodup_append] at h
    obtain ⟨hds, -, hdisjoint⟩ := h
    rw [firsts_concat, ih hds]
    exact addFirst_of_not_mem fun hd => hdisjoint _ hd _ List.mem_cons_self rfl

theorem firsts_append_of_subset {ds : List α} : ∀ {ds' : List α}, ds'.map key ⊆ ds.map key →
    firsts key (ds ++ ds') = firsts key ds := by
  intro ds'
  induction ds' using List.reverseRecOn with
  | nil => exact fun _ => by rw [List.append_nil]
  | append_singleton ds' d ih =>
    intro h
    rw [List.map_append, List.append_subset] at h
    rw [← List.append_assoc, firsts_concat, ih h.1]
    exact addFirst_of_mem ((mem_map_firsts _ ds).mpr (h.2 List.mem_cons_self))

/-- **What the first deliveries build, the deliveries build.**  `Allowed` is what the
feed promises of the first deliveries up to any point. -/
theorem run_firsts {deliver : σ → α → σ} {Invariant : List α → σ → Prop} {Allowed : List α → Prop}
    (hnew : ∀ fs s d, Invariant fs s → key d ∉ fs.map key → Allowed (fs ++ [d]) →
      Invariant (fs ++ [d]) (deliver s d))
    (hold : ∀ fs s d, Invariant fs s → key d ∈ fs.map key → Invariant fs (deliver s d))
    {s : σ} (hstart : Invariant [] s) : ∀ {ds : List α},
    (∀ fs, fs <+: firsts key ds → Allowed fs) → Invariant (firsts key ds) (run deliver s ds) := by
  intro ds
  induction ds using List.reverseRecOn with
  | nil => exact fun _ => hstart
  | append_singleton ds d ih =>
    intro hallowed
    have hbefore := ih fun fs hfs => hallowed fs (hfs.trans (isPrefix_firsts ds [d]))
    rw [run_concat]
    rw [firsts_concat] at hallowed ⊢
    by_cases hd : key d ∈ (firsts key ds).map key
    · rw [addFirst_of_mem hd]
      exact hold _ _ _ hbefore hd
    · rw [addFirst_of_not_mem hd] at hallowed ⊢
      exact hnew _ _ _ hbefore hd (hallowed _ List.prefix_rfl)

end Deliveries
