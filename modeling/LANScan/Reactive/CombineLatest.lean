import LANScan.Reactive.Adequacy

/-!
# Combining a list of streams

`combineLatest` of a list is a left fold of `combineLatestWith` over the list:
the first stream is wrapped in one-element tuples, each further stream pairs its
values with the tuple so far, and a last map unwraps `(((1), 2), 3)` into one flat
tuple.  The empty list gives the empty stream.

## Main results

* `unwrap_pairUp` — what the last map does to one layer.
* `outcome_combineLatest` — **a nonempty list of streams that each send one value
  sends one tuple**, in which position `i` holds the value of stream `i`.
-/

namespace Reactive

variable {Q : Type} {A : Q → Type} {α : Type} {ans : (q : Q) → A q}

/-- The loop that takes the layers off `(((1), 2), 3)`: the last component goes to
the front of the result, and the loop goes on with the first one.  `none` when a
layer is not a tuple. -/
def unwrap : Value α → Option (List (Value α))
  | .null => some []
  | .obj _ => none
  | .tuple [] => some [.null]
  | .tuple [v] => some [v]
  | .tuple (v :: w :: vs) => (unwrap v).map fun us => us ++ [(w :: vs).getLast (by simp)]

@[simp] theorem unwrap_single (v : Value α) : unwrap (.tuple [v]) = some [v] := by
  rw [unwrap]

@[simp] theorem unwrap_pairUp (v w : Value α) :
    unwrap (pairUp v w) = (unwrap v).map fun us => us ++ [w] := by
  rw [pairUp, unwrap, List.getLast_singleton]

namespace Signal

/-- The stream of the first list element, in one-element tuples, combined with the
others one by one. -/
def joinLatest (s : Signal Q A α) (ss : List (Signal Q A α)) : Signal Q A α :=
  ss.foldl combineLatestWith (s.map fun v => some (.tuple [v]))

/-- `combineLatest` of a list of streams. -/
def combineLatest : List (Signal Q A α) → Signal Q A α
  | [] => empty
  | s :: ss => (joinLatest s ss).map fun v => (unwrap v).map .tuple

end Signal

open Signal

@[simp] theorem outcome_ret (v : Value α) :
    (ret v : Signal Q A α).outcome ans = some (.settled (some v) true) := rfl

theorem outcome_flattenMap {s : Signal Q A α} {f : Value α → Signal Q A α} {v : Value α}
    {c : Bool} {o : Outcome α} (hs : s.outcome ans = some (.settled (some v) c))
    (hf : (f v).outcome ans = some o) : (s.flattenMap f).outcome ans = some (o.andThen c) := by
  simp [Signal.outcome, hs, Outcome.bind, hf]

theorem outcome_flattenMap_silent {s : Signal Q A α} (f : Value α → Signal Q A α) {c : Bool}
    (hs : s.outcome ans = some (.settled none c)) :
    (s.flattenMap f).outcome ans = some (.settled none c) := by
  simp [Signal.outcome, hs, Outcome.bind]

theorem outcome_flattenMap_crashed {s : Signal Q A α} (f : Value α → Signal Q A α) {c : Crash}
    (hs : s.outcome ans = some (.crashed c)) :
    (s.flattenMap f).outcome ans = some (.crashed c) := by
  simp [Signal.outcome, hs, Outcome.bind]

theorem outcome_map {s : Signal Q A α} {f : Value α → Option (Value α)} {v w : Value α} {c : Bool}
    (hs : s.outcome ans = some (.settled (some v) c)) (hf : f v = some w) :
    (s.map f).outcome ans = some (.settled (some w) c) := by
  rw [Signal.map, outcome_flattenMap hs (o := .settled (some w) true) (by simp [hf])]
  simp [Outcome.andThen]

theorem outcome_combineLatestWith {s t : Signal Q A α} {v w : Value α} {c d : Bool}
    (hs : s.outcome ans = some (.settled (some v) c))
    (ht : t.outcome ans = some (.settled (some w) d)) :
    (s.combineLatestWith t).outcome ans = some (.settled (some (pairUp v w)) (c && d)) := by
  simp [Signal.outcome, hs, ht, Outcome.both]

/-- The fold: the tuple so far unwraps to `us`, and each stream adds its value. -/
theorem outcome_foldl {β : Type} {sig : β → Signal Q A α} {val : β → Value α} {c : Bool} :
    ∀ (xs : List β), (∀ x ∈ xs, (sig x).outcome ans = some (.settled (some (val x)) c)) →
      ∀ (s : Signal Q A α) (v : Value α) (us : List (Value α)),
        s.outcome ans = some (.settled (some v) c) → unwrap v = some us →
        ∃ w, ((xs.map sig).foldl combineLatestWith s).outcome ans = some (.settled (some w) c) ∧
          unwrap w = some (us ++ xs.map val) := by
  intro xs
  induction xs with
  | nil => intro _ s v us hs hv; exact ⟨v, hs, by simpa using hv⟩
  | cons x xs ih =>
    intro hsig s v us hs hv
    have hpair := outcome_combineLatestWith hs (hsig x List.mem_cons_self)
    rw [Bool.and_self] at hpair
    obtain ⟨w, hw, hunwrap⟩ := ih (fun y hy => hsig y (List.mem_cons_of_mem _ hy))
      (s.combineLatestWith (sig x)) (pairUp v (val x)) (us ++ [val x]) hpair (by simp [hv])
    exact ⟨w, hw, by rw [hunwrap]; simp⟩

/-- **A nonempty list of streams that each send one value sends one tuple**, whose
components are the values in the order of the list. -/
theorem outcome_combineLatest {β : Type} {sig : β → Signal Q A α} {val : β → Value α} {c : Bool}
    {xs : List β} (hne : xs ≠ [])
    (hsig : ∀ x ∈ xs, (sig x).outcome ans = some (.settled (some (val x)) c)) :
    (combineLatest (xs.map sig)).outcome ans =
      some (.settled (some (.tuple (xs.map val))) c) := by
  cases xs with
  | nil => exact absurd rfl hne
  | cons x xs =>
    have hx := outcome_map (f := fun v => some (.tuple [v])) (hsig x List.mem_cons_self) rfl
    obtain ⟨w, hw, hunwrap⟩ := outcome_foldl xs
      (fun y hy => hsig y (List.mem_cons_of_mem _ hy)) _ _ _ hx (unwrap_single _)
    exact outcome_map hw (by simp [hunwrap])

@[simp] theorem outcome_combineLatest_nil :
    (combineLatest ([] : List (Signal Q A α))).outcome ans = some (.settled none true) := rfl

end Reactive
