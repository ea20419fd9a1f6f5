import Mathlib.Data.Nat.Notation

/-!
# Machines and their runs

A machine is an initial state and a step relation labelled by events.  A run may
be restricted by a guard on its steps: `ReachWhile ok` is what runs reach whose
every step meets `ok`, and `Reachable` is the case of no guard.  A `Trace` is a run
with its events.

## Main results

* `ReachWhile.invariant` — **the invariant rule**: what holds at the start and is
  kept by every guarded step holds of every state such runs reach.
* `Reachable.project` — a part that only makes steps of a smaller machine is
  reachable there.
* `Reachable.simulation` — a relation that every step can keep relates every reachable
  state to one that guarded runs of the other machine reach.
* `Steps.length_le`, `Reachable.exists_steps` — a measure that every step lowers bounds the
  runs, and with progress they lead somewhere quiet.
* `reachWhile_of_foldlM` — a computed run of a machine given by a function is a run.
-/

/-- A labelled transition system with one initial state. -/
structure Machine (σ ε : Type) where
  init : σ
  Step : σ → ε → σ → Prop

namespace Machine

variable {σ ε : Type} {m : Machine σ ε}

/-- The states reached by runs all of whose steps meet the guard. -/
inductive ReachWhile (m : Machine σ ε) (ok : σ → ε → Prop) : σ → Prop
  | init : ReachWhile m ok m.init
  | step {s s' : σ} {e : ε} (h : ReachWhile m ok s) (hok : ok s e) (hs : m.Step s e s') :
      ReachWhile m ok s'

/-- The states reached by runs. -/
def Reachable (m : Machine σ ε) (s : σ) : Prop := m.ReachWhile (fun _ _ => True) s

/-- **The invariant rule**, where a step may use that its first state is reached. -/
theorem ReachWhile.invariant_of_reachWhile {ok : σ → ε → Prop} {I : σ → Prop} (hinit : I m.init)
    (hstep : ∀ s e s', m.ReachWhile ok s → I s → ok s e → m.Step s e s' → I s') {s : σ}
    (h : m.ReachWhile ok s) : I s := by
  induction h with
  | init => exact hinit
  | step h hok hs ih => exact hstep _ _ _ h ih hok hs

/-- **The invariant rule.** -/
theorem ReachWhile.invariant {ok : σ → ε → Prop} {I : σ → Prop} (hinit : I m.init)
    (hstep : ∀ s e s', I s → ok s e → m.Step s e s' → I s') {s : σ} (h : m.ReachWhile ok s) :
    I s :=
  h.invariant_of_reachWhile hinit fun s e s' _ hi hok hs => hstep s e s' hi hok hs

/-- A guarded run is a run. -/
theorem ReachWhile.reachable {ok : σ → ε → Prop} {s : σ} (h : m.ReachWhile ok s) :
    m.Reachable s := by
  induction h with
  | init => exact .init
  | step _ _ hs ih => exact .step ih trivial hs

theorem Reachable.init : m.Reachable m.init := ReachWhile.init

theorem Reachable.step {s s' : σ} {e : ε} (h : m.Reachable s) (hs : m.Step s e s') :
    m.Reachable s' := ReachWhile.step h trivial hs

/-- The invariant rule for runs without a guard. -/
theorem Reachable.invariant {I : σ → Prop} (hinit : I m.init)
    (hstep : ∀ s e s', I s → m.Step s e s' → I s') {s : σ} (h : m.Reachable s) : I s :=
  ReachWhile.invariant hinit (fun s e s' hi _ hs => hstep s e s' hi hs) h

/-- The invariant rule for runs without a guard, where a step may use that its first
state is reachable. -/
theorem Reachable.invariant_of_reachable {I : σ → Prop} (hinit : I m.init)
    (hstep : ∀ s e s', m.Reachable s → I s → m.Step s e s' → I s') {s : σ} (h : m.Reachable s) :
    I s :=
  ReachWhile.invariant_of_reachWhile hinit (fun s e s' hs hi _ hms => hstep s e s' hs hi hms) h

/-- The runs with their events, the first one first. -/
inductive Trace (m : Machine σ ε) : List ε → σ → Prop
  | init : Trace m [] m.init
  | step {es : List ε} {s s' : σ} {e : ε} (h : Trace m es s) (hs : m.Step s e s') :
      Trace m (es ++ [e]) s'

theorem Trace.reachable {es : List ε} {s : σ} (h : m.Trace es s) : m.Reachable s := by
  induction h with
  | init => exact .init
  | step _ hs ih => exact ih.step hs

/-- **The projection rule**: a part of a machine that stays as it is or makes a step
of a smaller machine at every step is reachable in the smaller machine. -/
theorem Reachable.project {σ' ε' : Type} {m' : Machine σ' ε'} {s : σ} (h : m.Reachable s)
    (part : σ → σ') (hinit : part m.init = m'.init)
    (hstep : ∀ s e s', m.Step s e s' → part s' = part s ∨ ∃ e', m'.Step (part s) e' (part s')) :
    m'.Reachable (part s) := by
  apply h.invariant (I := fun s => m'.Reachable (part s))
  · rw [hinit]
    exact .init
  · intro s e s' hs hms
    rcases hstep s e s' hms with hstay | ⟨e', hmove⟩
    · rw [hstay]
      exact hs
    · exact hs.step hmove

/-- **The simulation rule**: where every step is answered by a guarded run of another
machine that keeps the relation, every reachable state is related to one that such runs
reach. -/
theorem Reachable.simulation {σ' ε' : Type} {m' : Machine σ' ε'} {ok : σ' → ε' → Prop}
    {R : σ → σ' → Prop} (hinit : ∃ t, m'.ReachWhile ok t ∧ R m.init t)
    (hstep : ∀ s e s' t, m.Reachable s → m'.ReachWhile ok t → R s t → m.Step s e s' →
      ∃ t', m'.ReachWhile ok t' ∧ R s' t')
    {s : σ} (h : m.Reachable s) : ∃ t, m'.ReachWhile ok t ∧ R s t := by
  refine h.invariant_of_reachable (I := fun s => ∃ t, m'.ReachWhile ok t ∧ R s t) hinit ?_
  rintro s e s' hs ⟨t, ht, hR⟩ hms
  exact hstep s e s' t hs ht hR hms

/-! ### Runs that end -/

/-- Guarded runs of `n` steps from one state to another. -/
inductive Steps (m : Machine σ ε) (ok : σ → ε → Prop) : σ → ℕ → σ → Prop
  | refl (s : σ) : Steps m ok s 0 s
  | step {s₁ s₂ s₃ : σ} {e : ε} {n : ℕ} (hok : ok s₁ e) (hs : m.Step s₁ e s₂)
    (h : Steps m ok s₂ n s₃) : Steps m ok s₁ (n + 1) s₃

/-- **The measure rule**: steps that lower a measure are no more than it. -/
theorem Steps.length_le {ok : σ → ε → Prop} {μ : σ → ℕ}
    (hlower : ∀ s e s', m.Reachable s → ok s e → m.Step s e s' → μ s' < μ s) {s s' : σ} {n : ℕ}
    (hs : m.Reachable s) (h : m.Steps ok s n s') : n + μ s' ≤ μ s := by
  induction h with
  | refl => omega
  | step hok hms _ ih =>
    have := hlower _ _ _ hs hok hms
    have := ih (hs.step hms)
    omega

/-- **The progress rule**: where every state that is not quiet has a guarded step, and
those lower a measure, a guarded run leads to a quiet state. -/
theorem Reachable.exists_steps {ok : σ → ε → Prop} {μ : σ → ℕ} {quiet : σ → Prop}
    (hlower : ∀ s e s', m.Reachable s → ok s e → m.Step s e s' → μ s' < μ s)
    (hprogress : ∀ s, m.Reachable s → ¬quiet s → ∃ e s', ok s e ∧ m.Step s e s') {s : σ}
    (h : m.Reachable s) : ∃ n s', m.Steps ok s n s' ∧ quiet s' := by
  by_cases hquiet : quiet s
  · exact ⟨0, s, .refl s, hquiet⟩
  · obtain ⟨e, s₂, hok, hs⟩ := hprogress s h hquiet
    have := hlower s e s₂ h hok hs
    obtain ⟨n, s', hsteps, hend⟩ := exists_steps hlower hprogress (h.step hs)
    exact ⟨n + 1, s', .step hok hs hsteps, hend⟩
termination_by μ s

/-! ### Machines given by a function -/

/-- The machine whose steps a function computes; `none` is a step that cannot be
made. -/
def ofNext (init : σ) (next : σ → ε → Option σ) : Machine σ ε where
  init := init
  Step s e s' := next s e = some s'

/-- A computed run whose steps meet the guard is a guarded run. -/
theorem reachWhile_of_foldlM {init : σ} {next : σ → ε → Option σ} {ok : σ → ε → Prop}
    [∀ s e, Decidable (ok s e)] (es : List ε) {s : σ}
    (h : es.foldlM (fun s e => if ok s e then next s e else none) init = some s) :
    (ofNext init next).ReachWhile ok s := by
  have key : ∀ (es : List ε) (s₁ s₂ : σ), (ofNext init next).ReachWhile ok s₁ →
      es.foldlM (fun s e => if ok s e then next s e else none) s₁ = some s₂ →
        (ofNext init next).ReachWhile ok s₂ := by
    intro es
    induction es with
    | nil =>
      intro s₁ s₂ h₁ heq
      obtain rfl := Option.some.inj heq
      exact h₁
    | cons e es ih =>
      intro s₁ s₂ h₁ heq
      rw [List.foldlM_cons] at heq
      obtain ⟨s₃, hstep, hrest⟩ := Option.bind_eq_some_iff.mp heq
      obtain ⟨hok, hstep⟩ := (Option.ite_none_right_eq_some).mp hstep
      exact ih s₃ s₂ (.step h₁ hok hstep) hrest
  exact key es init s .init h

/-- A computed run is a run. -/
theorem reachable_of_foldlM {init : σ} {next : σ → ε → Option σ} (es : List ε) {s : σ}
    (h : es.foldlM next init = some s) : (ofNext init next).Reachable s :=
  reachWhile_of_foldlM es (by simpa using h)

/-- A computed run of a machine whose steps are guarded is one of it. -/
theorem reachWhile_of_guarded {next : σ → ε → Option σ} {en ok : σ → ε → Prop}
    [∀ s e, Decidable (en s e)] [∀ s e, Decidable (ok s e)]
    (hstep : ∀ s e s', en s e → next s e = some s' → m.Step s e s') (es : List ε) {s : σ}
    (h : es.foldlM (fun s e => if en s e ∧ ok s e then next s e else none) m.init = some s) :
    m.ReachWhile ok s := by
  have hrun := reachWhile_of_foldlM es h
  clear h
  induction hrun with
  | init => exact .init
  | step _ hok hs ih => exact ih.step hok.2 (hstep _ _ _ hok.1 hs)

theorem reachable_of_guarded {next : σ → ε → Option σ} {en : σ → ε → Prop}
    [∀ s e, Decidable (en s e)]
    (hstep : ∀ s e s', en s e → next s e = some s' → m.Step s e s') (es : List ε) {s : σ}
    (h : es.foldlM (fun s e => if en s e then next s e else none) m.init = some s) :
    m.Reachable s :=
  reachWhile_of_guarded hstep es (by simpa only [and_true] using h)

end Machine
