import Cloudscale.Lib.ReadCommitted

/-!
# An engine over another

A database can keep something beside the tables of another one: a cache of what can be
computed from them, say.  It has statements of its own for that, and to the smaller engine
they are as if nothing had been run.  `Cover` is the smaller engine in the larger one, with
what the larger one keeps beside.

`Refines` compares a program of the larger engine with one of the smaller, whatever other
transactions commit in between.  Each statement of the first is one of the second, with the
same answer, or it is silent.  The first may also give up with an error where the second would
have gone on.

Sessions whose programs refine those of other sessions leave what these leave, in some order of
their steps (`Shadows.run`).  A session that gives up is one whose connection is lost.
-/

namespace ReadCommitted

open Transactions

variable {σ ω ε Op σ' ω' Op' : Type} {Res : Op → Type} {Res' : Op' → Type}

/-- The smaller engine in the larger one, with an invariant of what the larger one keeps beside
and what holds of what a transaction has written there. -/
structure Cover (E' : Engine σ' ω' ε Op' Res') (E : Engine σ ω ε Op Res) (rely : Rely σ ω) where
  shared : σ' → σ
  own : ω' → ω
  Inv : σ' → Prop
  Owns : σ' → ω' → Prop
  blank : own E'.blank = E.blank
  publish : ∀ s o, shared (E'.publish s o) = E.publish (shared s) (own o)
  owns_blank : ∀ s, Owns s E'.blank
  inv_draw : ∀ {s} op, Inv s → Inv (E'.draw op s)
  inv_publish : ∀ {s o}, rely.Inv (shared s) → rely.Owns (shared s) (own o) → Inv s → Owns s o →
    Inv (E'.publish s o)
  stable : ∀ {s t o}, rely.Grows (shared s) (shared t) → rely.Owns (shared s) (own o) →
    rely.Owns (shared t) (own o) → Owns s o → Owns t o

variable {E' : Engine σ' ω' ε Op' Res'} {E : Engine σ ω ε Op Res} {rely : Rely σ ω}
  (cover : Cover E' E rely)

/-- What a program of the larger engine may rely on. -/
structure Cover.Holds (s : σ') (o : ω') : Prop where
  relied : rely.Inv (cover.shared s)
  owned : rely.Owns (cover.shared s) (cover.own o)
  inv : cover.Inv s
  owns : cover.Owns s o

abbrev Cover.Grows (s t : σ') : Prop := rely.Grows (cover.shared s) (cover.shared t)

/-- To the smaller engine the statement is as if nothing had been run. -/
structure Silent (op : Op') (s : σ') (o : ω') : Prop where
  draw : cover.shared (E'.draw op s) = cover.shared s
  own : cover.own (ownAfter o (E'.exec op s o)) = cover.own o
  owns : cover.Owns (E'.draw op s) (ownAfter o (E'.exec op s o))

/-- The statement is a statement of the smaller engine. -/
structure StandsFor (op : Op') (op₀ : Op) (s : σ') (o : ω') : Prop where
  draw : cover.shared (E'.draw op s) = E.draw op₀ (cover.shared s)
  own : cover.own (ownAfter o (E'.exec op s o)) =
    ownAfter (cover.own o) (E.exec op₀ (cover.shared s) (cover.own o))
  waits : ∀ other, E.waits op₀ (cover.own other) = true → E'.waits op other = true
  grows : rely.Grows (cover.shared s) (E.draw op₀ (cover.shared s))
  owns : cover.Owns (E'.draw op s) (ownAfter o (E'.exec op s o))

/-! ### Programs -/

section Programs

variable (gives : ε → Prop) {α β γ δ : Type}

/-- **The program does what the other one does**, with silent statements, or gives up. -/
def Refines (Q : Except ε α → Except ε β → σ' → ω' → Prop) :
    Prog Res' ε α → Prog Res ε β → σ' → ω' → Prop
  | .pure a, q, s, o => ∀ t, cover.Grows s t → cover.Holds t o →
      ∃ b, q = .pure b ∧ Q (.ok a) (.ok b) t o
  | .throw e, q, s, o => ∀ t, cover.Grows s t → cover.Holds t o →
      gives e ∨ ∃ e₀, q = .throw e₀ ∧ Q (.error e) (.error e₀) t o
  | .call op next, q, s, o => ∀ t, cover.Grows s t → cover.Holds t o →
      (Silent cover op t o ∧ Refines Q (next ((E'.exec op t o).map Prod.fst)) q (E'.draw op t)
          (ownAfter o (E'.exec op t o))) ∨
        ∃ op₀ next₀, q = .call op₀ next₀ ∧ StandsFor cover op op₀ t o ∧
          Refines Q (next ((E'.exec op t o).map Prod.fst))
            (next₀ ((E.exec op₀ (cover.shared t) (cover.own o)).map Prod.fst)) (E'.draw op t)
            (ownAfter o (E'.exec op t o))

variable {cover gives} {Q Q' : Except ε α → Except ε β → σ' → ω' → Prop} {s : σ'} {o : ω'}

theorem Refines.grows {p : Prog Res' ε α} {q : Prog Res ε β} {t : σ'}
    (h : Refines cover gives Q p q s o) (hgrows : cover.Grows s t) :
    Refines cover gives Q p q t o := by
  cases p <;> exact fun u hu => h u (rely.trans hgrows hu)

/-- It is enough to look at the states in which the program goes on. -/
theorem refines_of_later {p : Prog Res' ε α} {q : Prog Res ε β}
    (h : ∀ t, cover.Grows s t → cover.Holds t o → Refines cover gives Q p q t o) :
    Refines cover gives Q p q s o := by
  cases p <;> exact fun t ht hholds => h t ht hholds t (rely.refl _) hholds

theorem refines_pure {a : α} {b : β}
    (h : ∀ t, cover.Grows s t → cover.Holds t o → Q (.ok a) (.ok b) t o) :
    Refines cover gives Q (pure a) (pure b) s o :=
  fun t ht hholds => ⟨b, rfl, h t ht hholds⟩

theorem refines_throw {e e₀ : ε}
    (h : ∀ t, cover.Grows s t → cover.Holds t o → Q (.error e) (.error e₀) t o) :
    Refines cover gives Q (throw e : Prog Res' ε α) (throw e₀ : Prog Res ε β) s o :=
  fun t ht hholds => Or.inr ⟨e₀, rfl, h t ht hholds⟩

theorem refines_gives {e : ε} (he : gives e) {q : Prog Res ε β} :
    Refines cover gives Q (throw e : Prog Res' ε α) q s o :=
  fun _ _ _ => Or.inl he

theorem Refines.mono {gives' : ε → Prop} (hgives : ∀ e, gives e → gives' e)
    (hQ : ∀ r r₀ t o, Q r r₀ t o → Q' r r₀ t o) {p : Prog Res' ε α} :
    ∀ {q : Prog Res ε β} {s : σ'} {o : ω'}, Refines cover gives Q p q s o →
      Refines cover gives' Q' p q s o := by
  induction p with
  | pure a =>
    intro q s o h t ht hholds
    obtain ⟨b, hq, hend⟩ := h t ht hholds
    exact ⟨b, hq, hQ _ _ _ _ hend⟩
  | throw e =>
    intro q s o h t ht hholds
    exact (h t ht hholds).imp (hgives e) fun ⟨e₀, hq, hend⟩ => ⟨e₀, hq, hQ _ _ _ _ hend⟩
  | call op next ih =>
    intro q s o h t ht hholds
    rcases h t ht hholds with ⟨hsilent, hnext⟩ | ⟨op₀, next₀, hq, hstands, hnext⟩
    · exact Or.inl ⟨hsilent, ih _ hnext⟩
    · exact Or.inr ⟨op₀, next₀, hq, hstands, ih _ hnext⟩

/-- How the rest of a program goes on after a first part has ended. -/
def Goes (cover : Cover E' E rely) (gives : ε → Prop)
    (Q : Except ε γ → Except ε δ → σ' → ω' → Prop) (f : α → Prog Res' ε γ)
    (g : β → Prog Res ε δ) : Except ε α → Except ε β → σ' → ω' → Prop
  | .ok a, .ok b, s, o => Refines cover gives Q (f a) (g b) s o
  | .error e, .error e₀, s, o => Q (.error e) (.error e₀) s o
  | _, _, _, _ => False

/-- **A sequence refines a sequence**, part by part. -/
theorem refines_bind {Q : Except ε γ → Except ε δ → σ' → ω' → Prop} {f : α → Prog Res' ε γ}
    {g : β → Prog Res ε δ} {p : Prog Res' ε α} : ∀ {q : Prog Res ε β} {s : σ'} {o : ω'},
    Refines cover gives (Goes cover gives Q f g) p q s o →
      Refines cover gives Q (p >>= f) (q >>= g) s o := by
  induction p with
  | pure a =>
    intro q s o h
    refine refines_of_later fun t ht hholds => ?_
    obtain ⟨b, rfl, hend⟩ := h t ht hholds
    exact hend
  | throw e =>
    intro q s o h t ht hholds
    rcases h t ht hholds with hgives | ⟨e₀, rfl, hend⟩
    · exact Or.inl hgives
    · exact Or.inr ⟨e₀, rfl, hend⟩
  | call op next ih =>
    intro q s o h t ht hholds
    rcases h t ht hholds with ⟨hsilent, hnext⟩ | ⟨op₀, next₀, rfl, hstands, hnext⟩
    · exact Or.inl ⟨hsilent, ih _ hnext⟩
    · exact Or.inr ⟨op₀, _, rfl, hstands, ih _ hnext⟩

/-- The value that is returned at the end is all that is changed. -/
theorem Refines.map {f : α → γ} {Q : Except ε γ → Except ε β → σ' → ω' → Prop} {p : Prog Res' ε α} :
    ∀ {q : Prog Res ε β} {s : σ'} {o : ω'},
    Refines cover gives (fun r r₀ s o => Q (r.map f) r₀ s o) p q s o →
      Refines cover gives Q (p >>= fun a => pure (f a)) q s o := by
  induction p with
  | pure a => exact fun h => h
  | throw e => exact fun h => h
  | call op next ih =>
    intro q s o h t ht hholds
    rcases h t ht hholds with ⟨hsilent, hnext⟩ | ⟨op₀, next₀, hq, hstands, hnext⟩
    · exact Or.inl ⟨hsilent, ih _ hnext⟩
    · exact Or.inr ⟨op₀, next₀, hq, hstands, ih _ hnext⟩

/-- A silent statement comes before what stands for the other program. -/
theorem refines_silent {op : Op'} {f : Res' op → Prog Res' ε α} {q : Prog Res ε β}
    (h : ∀ t, cover.Grows s t → cover.Holds t o → Silent cover op t o ∧
      ∃ a, (E'.exec op t o).map Prod.fst = .ok a ∧
        Refines cover gives Q (f a) q (E'.draw op t) (ownAfter o (E'.exec op t o))) :
    Refines cover gives Q (Prog.perform op >>= f) q s o := by
  intro t ht hholds
  obtain ⟨hsilent, a, hreply, hnext⟩ := h t ht hholds
  refine Or.inl ⟨hsilent, ?_⟩
  rw [hreply]
  exact hnext

/-- A statement stands for one of the other program. -/
theorem refines_stands {op : Op'} {op₀ : Op} {f : Res' op → Prog Res' ε α}
    {next₀ : Except ε (Res op₀) → Prog Res ε β}
    (h : ∀ t, cover.Grows s t → cover.Holds t o → StandsFor cover op op₀ t o ∧
      Refines cover gives Q (Prog.ofReply ((E'.exec op t o).map Prod.fst) >>= f)
        (next₀ ((E.exec op₀ (cover.shared t) (cover.own o)).map Prod.fst)) (E'.draw op t)
        (ownAfter o (E'.exec op t o))) :
    Refines cover gives Q (Prog.perform op >>= f) (.call op₀ next₀) s o := by
  intro t ht hholds
  obtain ⟨hstands, hnext⟩ := h t ht hholds
  exact Or.inr ⟨op₀, next₀, rfl, hstands, hnext⟩

/-- **Errors are handled alike**, where the program does not give up. -/
theorem refines_handle {Q : Except ε α → Except ε β → σ' → ω' → Prop} {p : Prog Res' ε α}
    {f : ε → Prog Res' ε α} {g : ε → Prog Res ε β} : ∀ {q : Prog Res ε β} {s : σ'} {o : ω'},
    Refines cover (fun _ => False) (fun r r₀ s o => match r, r₀ with
      | .ok a, .ok b => Q (.ok a) (.ok b) s o
      | .error e, .error e₀ => Refines cover gives Q (f e) (g e₀) s o
      | _, _ => False) p q s o → Refines cover gives Q (p.handle f) (q.handle g) s o := by
  induction p with
  | pure a =>
    intro q s o h t ht hholds
    obtain ⟨b, rfl, hend⟩ := h t ht hholds
    exact ⟨b, rfl, hend⟩
  | throw e =>
    intro q s o h
    refine refines_of_later fun t ht hholds => ?_
    rcases h t ht hholds with hgives | ⟨e₀, rfl, hend⟩
    · exact hgives.elim
    · exact hend
  | call op next ih =>
    intro q s o h t ht hholds
    rcases h t ht hholds with ⟨hsilent, hnext⟩ | ⟨op₀, next₀, rfl, hstands, hnext⟩
    · exact Or.inl ⟨hsilent, ih _ hnext⟩
    · exact Or.inr ⟨op₀, _, rfl, hstands, ih _ hnext⟩

/-- What was there when the program began is there, grown, when it ends. -/
theorem Refines.since {p : Prog Res' ε α} : ∀ {q : Prog Res ε β} {s t : σ'} {o : ω'},
    cover.Grows s t → Refines cover gives Q p q t o →
      Refines cover gives (fun r r₀ u o => cover.Grows s u ∧ Q r r₀ u o) p q t o := by
  induction p with
  | pure a =>
    intro q s t o hgrows h u hu hholds
    obtain ⟨b, hq, hend⟩ := h u hu hholds
    exact ⟨b, hq, rely.trans hgrows hu, hend⟩
  | throw e =>
    intro q s t o hgrows h u hu hholds
    exact (h u hu hholds).imp_right fun ⟨e₀, hq, hend⟩ => ⟨e₀, hq, rely.trans hgrows hu, hend⟩
  | call op next ih =>
    intro q s t o hgrows h u hu hholds
    have hlater := rely.trans hgrows hu
    rcases h u hu hholds with ⟨hsilent, hnext⟩ | ⟨op₀, next₀, hq, hstands, hnext⟩
    · refine Or.inl ⟨hsilent, ih _ ?_ hnext⟩
      rw [Cover.Grows, hsilent.draw]
      exact hlater
    · refine Or.inr ⟨op₀, next₀, hq, hstands, ih _ ?_ hnext⟩
      rw [Cover.Grows, hstands.draw]
      exact rely.trans hlater hstands.grows

end Programs

/-! ### Programs with a state of their own -/

section Emulates

variable {T α β δ : Type} (gives : ε → Prop)

/-- The ends are the same, and the state of the one program is as it should be. -/
def SameEnd (Q : T → σ' → ω' → Prop) (Z : ω' → Prop) :
    Except ε (α × T) → Except ε α → σ' → ω' → Prop
  | .ok (a, t), .ok b, s, o => a = b ∧ Q t s o
  | .error e, .error e₀, _, o => e = e₀ ∧ Z o
  | _, _, _, _ => False

theorem SameEnd.fst_eq {Q : T → σ' → ω' → Prop} {Z : ω' → Prop} {r : Except ε (α × T)}
    {r₀ : Except ε α} {s : σ'} {o : ω'} (h : SameEnd Q Z r r₀ s o) : r.map Prod.fst = r₀ := by
  match r, r₀ with
  | .ok _, .ok _ => exact congrArg Except.ok h.1
  | .error _, .error _ => exact congrArg Except.error h.1

/-- **A program with a state of its own does what the other one does**, from where `P` holds of
its state to where `Q` does, or to an error where `Z` holds of what has been written. -/
def Emulates (P Q : T → σ' → ω' → Prop) (Z : ω' → Prop) (x : StateT T (Prog Res' ε) α)
    (y : Prog Res ε α) : Prop :=
  ∀ t s o, P t s o → Refines cover gives (SameEnd Q Z) (x t) y s o

variable {cover gives} {P Q R : T → σ' → ω' → Prop} {Z : ω' → Prop}
  {x : StateT T (Prog Res' ε) α} {y : Prog Res ε α}

theorem Emulates.mono {gives' : ε → Prop} {P' Q' : T → σ' → ω' → Prop} {Z' : ω' → Prop}
    (h : Emulates cover gives P Q Z x y) (hgives : ∀ e, gives e → gives' e)
    (hP : ∀ t s o, P' t s o → P t s o) (hQ : ∀ t s o, Q t s o → Q' t s o) (hZ : ∀ o, Z o → Z' o) :
    Emulates cover gives' P' Q' Z' x y := by
  refine fun t s o ht => (h t s o (hP t s o ht)).mono hgives fun r r₀ u o' hend => ?_
  match r, r₀ with
  | .ok _, .ok _ => exact ⟨hend.1, hQ _ _ _ hend.2⟩
  | .error _, .error _ => exact ⟨hend.1, hZ _ hend.2⟩

theorem emulates_pure (h : ∀ t s u o, P t s o → cover.Grows s u → Q t u o) (a : α) :
    Emulates cover gives P Q Z (pure a) (pure a) :=
  fun t s o ht => refines_pure fun u hu _ => ⟨rfl, h t s u o ht hu⟩

theorem emulates_throw (h : ∀ t s o, P t s o → Z o) (e : ε) :
    Emulates cover gives P Q Z (throw e : StateT T (Prog Res' ε) α) (throw e) :=
  fun t s o ht => refines_throw fun _ _ _ => ⟨rfl, h t s o ht⟩

theorem Emulates.bind {f : α → StateT T (Prog Res' ε) β} {g : α → Prog Res ε β}
    (h : Emulates cover gives P Q Z x y) (hf : ∀ a, Emulates cover gives Q R Z (f a) (g a)) :
    Emulates cover gives P R Z (x >>= f) (y >>= g) := by
  refine fun t s o ht => refines_bind ((h t s o ht).mono (fun _ he => he) fun r r₀ u o' hend => ?_)
  match r, r₀ with
  | .ok (a, t'), .ok b =>
    obtain ⟨rfl, hQ⟩ := hend
    exact hf a t' u o' hQ
  | .error _, .error _ => exact hend

/-- The state that an error takes back is as it should be, where only `Z` has been kept. -/
theorem Emulates.attempt {handled : ε → Option δ} (h : Emulates cover (fun _ => False) P P Z x y)
    (hZ : ∀ t s o, P t s o → Z o) (hP : ∀ t s u o o', P t s o → cover.Grows s u → Z o' → P t u o') :
    Emulates cover gives P P Z (attempt handled x) (attempt handled y) := by
  intro t s o ht
  have hmap : Refines cover (fun _ => False) (SameEnd P Z)
      ((Sum.inl <$> x : StateT T (Prog Res' ε) (α ⊕ δ)) t) (Sum.inl <$> y) s o := by
    refine refines_bind ((h t s o ht).mono (fun _ he => he) fun r r₀ u o' hend => ?_)
    match r, r₀ with
    | .ok (a, t'), .ok b =>
      obtain ⟨rfl, ht'⟩ := hend
      exact fun v hv _ => ⟨_, rfl, rfl, hP t' u v o' o' ht' hv (hZ t' u o' ht')⟩
    | .error _, .error _ => exact hend
  refine refines_handle ((hmap.since (rely.refl _)).mono (fun _ he => he) fun r r₀ u o' hend => ?_)
  match r, r₀ with
  | .ok _, .ok _ => exact hend.2
  | .error e, .error e₀ =>
    obtain ⟨hgrows, rfl, hend⟩ := hend
    dsimp only
    cases handled e with
    | none => exact refines_throw fun _ _ _ => ⟨rfl, hend⟩
    | some d =>
      exact refines_pure fun v hv _ => ⟨rfl, hP t s v o o' ht (rely.trans hgrows hv) hend⟩

end Emulates

/-! ### Sessions -/

section Sessions

variable {ι τ κ α τ' κ' β : Type} (gives : ε → Prop) (Same : Except ε α → Except ε β → Prop)
  (Like : τ' → τ → Prop) (shadow : κ' → κ)

/-- Sessions that are alike have one task and its shadow, and their results leave them alike; so
does the loss of a connection, and giving up is as if it had been lost. -/
structure Matches (program' : κ' → Prog Res' ε α) (worker' : ι → Worker τ' κ' ε α)
    (program : κ → Prog Res ε β) (worker : ι → Worker τ κ ε β) : Prop where
  task : ∀ {i l l₀ task}, Like l l₀ → (worker' i).next l = some task →
    (worker i).next l₀ = some (shadow task)
  refines : ∀ task s, Refines cover gives (fun r r₀ _ _ => Same r r₀) (program' task)
    (program (shadow task)) s E'.blank
  resume : ∀ {i l l₀ r r₀}, Like l l₀ → Same r r₀ →
    Like ((worker' i).resume l r) ((worker i).resume l₀ r₀)
  lost : ∀ {i l l₀ e}, Like l l₀ → gives e ∨ e = (worker' i).lost →
    Like ((worker' i).resume l (.error e)) ((worker i).resume l₀ (.error (worker i).lost))

/-- What a session of the larger engine does, one of the smaller does. -/
inductive Paired (s : σ') : Phase σ' ω' Res' ε κ' α → Phase σ ω Res ε κ β → Prop
  | idle : Paired s .idle .idle
  | running {task : κ'} {past : List (Entry σ' ω' Op')} {own : ω'} {p : Prog Res' ε α}
      {past₀ : List (Entry σ ω Op)} {q : Prog Res ε β} (owns : cover.Owns s own)
      (refines : Refines cover gives (fun r r₀ _ _ => Same r r₀) p q s own) :
      Paired s (.running task past own p) (.running (shadow task) past₀ (cover.own own) q)

/-- **The sessions of the smaller engine are where those of the larger are.** -/
structure Shadows (s : State σ' ω' Res' ε ι τ' κ' α) (s₀ : State σ ω Res ε ι τ κ β) : Prop where
  shared : cover.shared s.shared = s₀.shared
  inv : cover.Inv s.shared
  locals : ∀ i, Like (s.sessions i).locals (s₀.sessions i).locals
  phases : ∀ i, Paired cover gives Same shadow s.shared (s.sessions i).phase (s₀.sessions i).phase

variable {cover gives Same Like shadow} {program' : κ' → Prog Res' ε α}
  {worker' : ι → Worker τ' κ' ε α} {program : κ → Prog Res ε β} {worker : ι → Worker τ κ ε β}
  {s : State σ' ω' Res' ε ι τ' κ' α} {s₀ : State σ ω Res ε ι τ κ β}
  {Owes : Op → σ → ω → Prop} {clash : ω → ω → Prop} {Settled : σ → ω → Prop}
  {Ends : κ → Except ε β → σ → ω → List (Entry σ ω Op) → Prop} {Told : ι → τ → Prop}

/-- What is shared grows, and a session goes on doing what its shadow does. -/
theorem Paired.grows {u t : σ'} {phase : Phase σ' ω' Res' ε κ' α} {phase₀ : Phase σ ω Res ε κ β}
    (h : Paired cover gives Same shadow u phase phase₀) (hgrows : cover.Grows u t)
    (howns : ∀ own ∈ phase₀.own?, rely.Owns (cover.shared u) own ∧ rely.Owns (cover.shared t) own) :
    Paired cover gives Same shadow t phase phase₀ := by
  cases h with
  | idle => exact .idle
  | running owns refines =>
    obtain ⟨hu, ht⟩ := howns _ rfl
    exact .running (cover.stable hgrows hu ht owns) (refines.grows hgrows)

/-- What a shadow waits for, the session waits for. -/
theorem Paired.waits {t : σ'} {phase : Phase σ' ω' Res' ε κ' α} {phase₀ : Phase σ ω Res ε κ β}
    (h : Paired cover gives Same shadow t phase phase₀) {waits : ω → Bool} {waits' : ω' → Bool}
    (hwaits : ∀ own, waits (cover.own own) = true → waits' own = true)
    (hshadow : phase₀.own?.any waits = true) : phase.own?.any waits' = true := by
  cases h with
  | idle => exact hshadow
  | running => exact hwaits _ hshadow

section Step

variable [DecidableEq ι]

/-- One session and its shadow move, and the others go on. -/
theorem Shadows.become (h : Shadows cover gives Same Like shadow s s₀) {i : ι} {t : σ'} {t₀ : σ}
    {session : Session σ' ω' Res' ε τ' κ' α} {session₀ : Session σ ω Res ε τ κ β}
    (hsafe : Safe rely Owes clash E worker Ends Told s₀)
    (hsafe' : Safe rely Owes clash E worker Ends Told
      ⟨t₀, Function.update s₀.sessions i session₀⟩) (hgrows : rely.Grows s₀.shared t₀)
    (hshared : cover.shared t = t₀) (hinv : cover.Inv t)
    (hlike : Like session.locals session₀.locals)
    (hpaired : Paired cover gives Same shadow t session.phase session₀.phase) :
    Shadows cover gives Same Like shadow ⟨t, Function.update s.sessions i session⟩
      ⟨t₀, Function.update s₀.sessions i session₀⟩ := by
  subst hshared
  have hother : ∀ j, j ≠ i →
      Paired cover gives Same shadow t (s.sessions j).phase (s₀.sessions j).phase := by
    intro j hj
    have hgrows' : cover.Grows s.shared t := by
      rw [Cover.Grows, h.shared]
      exact hgrows
    refine (h.phases j).grows hgrows' fun own hown => ⟨?_, hsafe'.owns j ?_⟩
    · rw [h.shared]
      exact hsafe.owns j hown
    · dsimp only
      rwa [Function.update_of_ne hj]
  refine ⟨rfl, hinv, fun j => ?_, fun j => ?_⟩
  · dsimp only
    by_cases hj : j = i
    · subst hj
      rwa [Function.update_self, Function.update_self]
    · rw [Function.update_of_ne hj, Function.update_of_ne hj]
      exact h.locals j
  · dsimp only
    by_cases hj : j = i
    · subst hj
      rwa [Function.update_self, Function.update_self]
    · rw [Function.update_of_ne hj, Function.update_of_ne hj]
      exact hother j hj

omit [DecidableEq ι] in
theorem Shadows.idle (h : Shadows cover gives Same Like shadow s s₀) {i : ι}
    (hphase : (s.sessions i).phase = .idle) : (s₀.sessions i).phase = .idle := by
  have hpaired := h.phases i
  rw [hphase] at hpaired
  generalize (s₀.sessions i).phase = phase₀ at hpaired
  cases hpaired
  rfl

omit [DecidableEq ι] in
theorem Shadows.running (h : Shadows cover gives Same Like shadow s s₀)
    (hsafe : Safe rely Owes clash E worker Ends Told s₀) {i : ι} {task : κ'}
    {past : List (Entry σ' ω' Op')} {own : ω'} {p : Prog Res' ε α}
    (hphase : (s.sessions i).phase = .running task past own p) :
    ∃ past₀ q, (s₀.sessions i).phase = .running (shadow task) past₀ (cover.own own) q ∧
      cover.Holds s.shared own ∧
      Refines cover gives (fun r r₀ _ _ => Same r r₀) p q s.shared own := by
  have hpaired := h.phases i
  rw [hphase] at hpaired
  generalize hphase₀ : (s₀.sessions i).phase = phase₀ at hpaired
  cases hpaired with
  | running howns hrefines =>
    have howned : rely.Owns s₀.shared (cover.own own) := by
      refine hsafe.owns i ?_
      rw [hphase₀]
      rfl
    refine ⟨_, _, rfl, ⟨?_, ?_, h.inv, howns⟩, hrefines⟩
    · rw [h.shared]
      exact hsafe.inv
    · rw [h.shared]
      exact howned

variable (hd : Discipline rely Owes clash E Settled)
  (ht : Tasks rely Owes E program worker Settled Ends Told)
  [∀ s : State σ ω Res ε ι τ κ β, ∀ i op, Decidable (s.Waits E i op)]

include hd ht

/-- The session and its shadow take a step. -/
theorem Shadows.step (h : Shadows cover gives Same Like shadow s s₀) {i : ι} {t : σ'} {t₀ : σ}
    {session : Session σ' ω' Res' ε τ' κ' α} {session₀ : Session σ ω Res ε τ κ β} (move : Move ι)
    (hsafe : Safe rely Owes clash E worker Ends Told s₀)
    (hnext : s₀.next E program worker move = ⟨t₀, Function.update s₀.sessions i session₀⟩)
    (hshared : cover.shared t = t₀) (hinv : cover.Inv t)
    (hlike : Like session.locals session₀.locals)
    (hpaired : Paired cover gives Same shadow t session.phase session₀.phase) :
    ∃ moves, Shadows cover gives Same Like shadow ⟨t, Function.update s.sessions i session⟩
      (Runs.run (fun s move => s.next E program worker move) s₀ moves) := by
  have hsafe' := hsafe.next hd ht move
  have hgrows := hsafe.grows_next hd ht move
  rw [hnext] at hsafe' hgrows
  refine ⟨[move], ?_⟩
  rw [Runs.run_cons, Runs.run_nil, hnext]
  exact h.become hsafe hsafe' hgrows hshared hinv hlike hpaired

variable (hm : Matches cover gives Same Like shadow program' worker' program worker)
  [∀ s : State σ' ω' Res' ε ι τ' κ' α, ∀ i op, Decidable (s.Waits E' i op)]

include hm

/-- **A step of a session is a step of its shadow, or none.** -/
theorem Shadows.next (h : Shadows cover gives Same Like shadow s s₀)
    (hsafe : Safe rely Owes clash E worker Ends Told s₀) (move : Move ι) :
    ∃ moves, Shadows cover gives Same Like shadow (s.next E' program' worker' move)
      (Runs.run (fun s move => s.next E program worker move) s₀ moves) := by
  have hstay : ∃ moves, Shadows cover gives Same Like shadow s
      (Runs.run (fun s move => s.next E program worker move) s₀ moves) := ⟨[], h⟩
  cases move with
  | lose i =>
    show ∃ moves, Shadows cover gives Same Like shadow (s.lose worker' i) _
    rw [State.lose]
    split
    next => exact hstay
    next hphase =>
      obtain ⟨past₀, q, hphase₀, -, -⟩ := h.running hsafe hphase
      have hnext : s₀.next E program worker (.lose i) =
          s₀.ended worker i (.error (worker i).lost) := by
        show s₀.lose worker i = _
        rw [State.lose, hphase₀]
      exact h.step hd ht (.lose i) hsafe hnext h.shared h.inv
        (hm.lost (h.locals i) (Or.inr rfl)) .idle
  | proceed i =>
    show ∃ moves, Shadows cover gives Same Like shadow (s.proceed E' program' worker' i) _
    rw [State.proceed]
    split
    next hphase =>
      split
      next => exact hstay
      next task htask =>
        have hnext : s₀.next E program worker (.proceed i) = s₀.become i ⟨(s₀.sessions i).locals,
            .running (shadow task) [] (cover.own E'.blank) (program (shadow task))⟩ := by
          show s₀.proceed E program worker i = _
          rw [State.proceed, h.idle hphase, cover.blank]
          dsimp only
          rw [hm.task (h.locals i) htask]
        exact h.step hd ht (.proceed i) hsafe hnext h.shared h.inv (h.locals i)
          (.running (cover.owns_blank _) (hm.refines task _))
    next task past own a hphase =>
      obtain ⟨past₀, q, hphase₀, hholds, hrefines⟩ := h.running hsafe hphase
      obtain ⟨b, rfl, hsame⟩ := hrefines s.shared (rely.refl _) hholds
      have hnext : s₀.next E program worker (.proceed i) =
          { s₀.ended worker i (.ok b) with shared := E.publish s₀.shared (cover.own own) } := by
        show s₀.proceed E program worker i = _
        rw [State.proceed, hphase₀]
      refine h.step hd ht (.proceed i) hsafe hnext ?_
        (cover.inv_publish hholds.relied hholds.owned h.inv hholds.owns)
        (hm.resume (h.locals i) hsame) .idle
      rw [cover.publish, h.shared]
    next task past own e hphase =>
      obtain ⟨past₀, q, hphase₀, hholds, hrefines⟩ := h.running hsafe hphase
      rcases hrefines s.shared (rely.refl _) hholds with hgives | ⟨e₀, rfl, hsame⟩
      · have hnext : s₀.next E program worker (.lose i) =
            s₀.ended worker i (.error (worker i).lost) := by
          show s₀.lose worker i = _
          rw [State.lose, hphase₀]
        exact h.step hd ht (.lose i) hsafe hnext h.shared h.inv
          (hm.lost (h.locals i) (Or.inl hgives)) .idle
      · have hnext : s₀.next E program worker (.proceed i) = s₀.ended worker i (.error e₀) := by
          show s₀.proceed E program worker i = _
          rw [State.proceed, hphase₀]
        exact h.step hd ht (.proceed i) hsafe hnext h.shared h.inv
          (hm.resume (h.locals i) hsame) .idle
    next task past own op rest hphase =>
      split
      next => exact hstay
      next hwaits =>
        obtain ⟨past₀, q, hphase₀, hholds, hrefines⟩ := h.running hsafe hphase
        rcases hrefines s.shared (rely.refl _) hholds with
          ⟨hsilent, hrest⟩ | ⟨op₀, next₀, rfl, hstands, hrest⟩
        · -- The shadow stays where it is.
          have hself : (⟨s₀.shared, Function.update s₀.sessions i (s₀.sessions i)⟩ :
              State σ ω Res ε ι τ κ β) = s₀ := by
            rw [Function.update_eq_self]
          refine ⟨[], ?_⟩
          rw [Runs.run_nil, ← hself]
          refine h.become hsafe (hself.symm ▸ hsafe) (rely.refl _) (hsilent.draw.trans h.shared)
            (cover.inv_draw op h.inv) (h.locals i) ?_
          rw [hphase₀, ← hsilent.own]
          exact .running hsilent.owns hrest
        · have hfree : ¬ s₀.Waits E i op₀ := by
            rintro ⟨j, hj, hwait⟩
            exact hwaits ⟨j, hj, (h.phases j).waits hstands.waits hwait⟩
          have hnext : s₀.next E program worker (.proceed i) =
              s₀.perform E i (shadow task) past₀ (cover.own own) op₀ next₀ := by
            show s₀.proceed E program worker i = _
            rw [State.proceed, hphase₀]
            dsimp only
            rw [if_neg hfree]
          refine h.step hd ht (.proceed i) hsafe hnext ?_ (cover.inv_draw op h.inv) (h.locals i) ?_
          · rw [hstands.draw, h.shared]
          · dsimp only
            rw [← h.shared, ← hstands.own]
            exact .running hstands.owns hrest

/-- **Sessions leave what their shadows leave**, in some order of the shadows' steps. -/
theorem Shadows.run (h : Shadows cover gives Same Like shadow s s₀)
    (hsafe : Safe rely Owes clash E worker Ends Told s₀) (moves : List (Move ι)) :
    ∃ moves₀, Shadows cover gives Same Like shadow
      (Runs.run (fun s move => s.next E' program' worker' move) s moves)
      (Runs.run (fun s move => s.next E program worker move) s₀ moves₀) := by
  induction moves generalizing s s₀ with
  | nil => exact ⟨[], h⟩
  | cons move moves ih =>
    obtain ⟨first, hfirst⟩ := h.next hd ht hm hsafe move
    obtain ⟨rest, hrest⟩ := ih hfirst (hsafe.run hd ht first)
    refine ⟨first ++ rest, ?_⟩
    rw [Runs.run_append]
    exact hrest

end Step

end Sessions

end ReadCommitted
