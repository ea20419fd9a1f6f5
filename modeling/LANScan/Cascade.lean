import LANScan.Machine
import Mathlib.Data.Set.Basic
import Mathlib.Logic.Relation

/-!
# Cascades

Nodes hold other nodes, and closing a node asks for everything it holds to be closed.
What an open node holds may change at any time; a closed node only ever gets more, and
asks for it at once.  Nothing is said about the order in which this happens, and nodes
may hold each other in a circle.

## Main definitions

* `Cascade` — the nodes that are closed, that are about to be, and that have been asked for.
* `Cascade.Follows` — what one step may do.
* `Cascade.Inv` — the invariant.

## Main results

* `Cascade.Inv.step` — a step that follows the rules keeps the invariant.
* `Cascade.Inv.closed_iff` — **when nothing is pending, exactly what can be reached from
  the nodes asked for is closed.**
-/

/-- Nodes that hold other nodes. -/
structure Cascade (α : Type) where
  closed : Set α
  /-- The nodes with a request to close them under way. -/
  pending : Set α
  /-- The nodes that somebody other than a node has asked to close. -/
  asked : Set α
  holds : α → α → Prop

namespace Cascade

variable {α : Type} {s s' : Cascade α}

/-- The rules of a step. -/
structure Follows (s s' : Cascade α) : Prop where
  closed_mono : ∀ a ∈ s.closed, a ∈ s'.closed
  closed_new : ∀ a ∈ s'.closed, a ∈ s.closed ∨ a ∈ s.pending
  asked_mono : ∀ a ∈ s.asked, a ∈ s'.asked
  asked_new : ∀ a ∈ s'.asked, a ∈ s.asked ∨ a ∈ s'.pending
  pending_kept : ∀ a ∈ s.pending, a ∈ s'.pending ∨ a ∈ s'.closed
  pending_new : ∀ b ∈ s'.pending, b ∈ s.pending ∨ b ∈ s'.asked ∨ ∃ a ∈ s'.closed, s'.holds a b
  holds_kept : ∀ a ∈ s.closed, ∀ b, s.holds a b → s'.holds a b
  passed_on : ∀ a ∈ s'.closed, ∀ b, s'.holds a b →
    a ∈ s.closed ∧ s.holds a b ∨ b ∈ s'.closed ∨ b ∈ s'.pending

/-- Doing nothing follows the rules. -/
theorem Follows.refl (s : Cascade α) : s.Follows s where
  closed_mono _ h := h
  closed_new _ h := Or.inl h
  asked_mono _ h := h
  asked_new _ h := Or.inl h
  pending_kept _ h := Or.inl h
  pending_new _ h := Or.inl h
  holds_kept _ _ _ h := h
  passed_on _ ha _ h := Or.inl ⟨ha, h⟩

/-- A closed node holds another one. -/
def Passes (s : Cascade α) (a b : α) : Prop := a ∈ s.closed ∧ s.holds a b

/-- What is asked for or held by a closed node is closed or about to be, and nothing else
is. -/
structure Inv (s : Cascade α) : Prop where
  asked : ∀ a ∈ s.asked, a ∈ s.closed ∨ a ∈ s.pending
  passed : ∀ a ∈ s.closed, ∀ b, s.holds a b → b ∈ s.closed ∨ b ∈ s.pending
  rooted : ∀ b, b ∈ s.closed ∨ b ∈ s.pending →
    ∃ r ∈ s.asked, Relation.ReflTransGen s.Passes r b

/-- What was on its way stays on its way. -/
theorem Follows.kept (h : s.Follows s') {a : α} (ha : a ∈ s.closed ∨ a ∈ s.pending) :
    a ∈ s'.closed ∨ a ∈ s'.pending := by
  rcases ha with ha | ha
  · exact Or.inl (h.closed_mono a ha)
  · exact (h.pending_kept a ha).symm

/-- A path through closed nodes stays one. -/
theorem Follows.path (h : s.Follows s') {r b : α} (hpath : Relation.ReflTransGen s.Passes r b) :
    Relation.ReflTransGen s'.Passes r b :=
  Relation.ReflTransGen.mono
    (fun a b hab => ⟨h.closed_mono a hab.1, h.holds_kept a hab.1 b hab.2⟩) _ _ hpath

/-- **A step that follows the rules keeps the invariant.** -/
theorem Inv.step (hi : s.Inv) (h : s.Follows s') : s'.Inv := by
  have hold : ∀ b, b ∈ s.closed ∨ b ∈ s.pending →
      ∃ r ∈ s'.asked, Relation.ReflTransGen s'.Passes r b := by
    intro b hb
    obtain ⟨r, hr, hpath⟩ := hi.rooted b hb
    exact ⟨r, h.asked_mono r hr, h.path hpath⟩
  have hclosed : ∀ b ∈ s'.closed, ∃ r ∈ s'.asked, Relation.ReflTransGen s'.Passes r b :=
    fun b hb => hold b (h.closed_new b hb)
  refine ⟨fun a ha => ?_, fun a ha b hab => ?_, fun b hb => ?_⟩
  · rcases h.asked_new a ha with ha | ha
    · exact h.kept (hi.asked a ha)
    · exact Or.inr ha
  · rcases h.passed_on a ha b hab with ⟨ha, hab⟩ | hb
    · exact h.kept (hi.passed a ha b hab)
    · exact hb
  · rcases hb with hb | hb
    · exact hclosed b hb
    · rcases h.pending_new b hb with hb | hb | ⟨a, ha, hab⟩
      · exact hold b (Or.inr hb)
      · exact ⟨b, hb, .refl⟩
      · obtain ⟨r, hr, hpath⟩ := hclosed a ha
        exact ⟨r, hr, hpath.tail ⟨ha, hab⟩⟩

/-- The invariant of a machine whose steps follow the rules. -/
theorem inv_of_reachable {σ ε : Type} {m : Machine σ ε} (part : σ → Cascade α)
    (hinit : (part m.init).Inv)
    (hstep : ∀ s e s', m.Reachable s → m.Step s e s' → (part s).Follows (part s')) {s : σ}
    (h : m.Reachable s) : (part s).Inv :=
  h.invariant_of_reachable (I := fun s => (part s).Inv) hinit
    fun s e s' hs hi hms => hi.step (hstep s e s' hs hms)

/-- **When nothing is pending, exactly what can be reached from the nodes asked for is
closed.** -/
theorem Inv.closed_iff (hi : s.Inv) (hquiet : ∀ a, a ∉ s.pending) (b : α) :
    b ∈ s.closed ↔ ∃ r ∈ s.asked, Relation.ReflTransGen s.holds r b := by
  constructor
  · intro hb
    obtain ⟨r, hr, hpath⟩ := hi.rooted b (Or.inl hb)
    exact ⟨r, hr, Relation.ReflTransGen.mono (fun _ _ h => h.2) _ _ hpath⟩
  · rintro ⟨r, hr, hpath⟩
    induction hpath with
    | refl => exact (hi.asked r hr).resolve_right (hquiet r)
    | tail _ hbc ih => exact (hi.passed _ ih _ hbc).resolve_right (hquiet _)

end Cascade
