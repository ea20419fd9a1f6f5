import LANScan.Reactive.Signal
import Mathlib.Order.WellFounded

/-!
# Every run ends

A signal is a finite description, so a subscription to it can only make finitely
many steps, whatever the answers and whatever the order.  Hence every run can be
continued to a quiet state, and "once nothing is outstanding" is a moment every
schedule reaches.

## Main results

* `quiet_iff` — a subscription is quiet exactly when it has no step.
* `terminates_starting` — **every subscription to a signal terminates.**
* `exists_quiet_run` — every run of a terminating subscription goes on to a
  quiet one.
-/

namespace Reactive

variable {Q : Type} {A : Q → Type} {α : Type} {ans : (q : Q) → A q}

/-! ### Quiet states -/

theorem Quiet.not_step {x : Sub Q A α} (hx : Quiet x) :
    ∀ (x' : Sub Q A α) (es : List (Event α)), ¬Step ans x x' es := by
  induction hx with
  | idle => intro x' es h; cases h
  | binding _ _ ihx ihys =>
    intro x' es h
    cases h with
    | source h => exact ihx _ _ h
    | @inner _ _ y _ _ c _ _ _ h => exact ihys (y, c) (by simp) _ _ h
  | combining _ _ ihl ihr =>
    intro x' es h
    cases h with
    | left h => exact ihl _ _ h
    | right h => exact ihr _ _ h
  | forwarding _ ih =>
    intro x' es h
    cases h with
    | forward h => exact ih _ _ h
  | delivering _ ih =>
    intro x' es h
    cases h with
    | enqueue h => exact ih _ _ h

/-- A subscription block that waits for a scheduler can always be run. -/
theorem exists_step_starting (ans : (q : Q) → A q) (s : Signal Q A α) :
    ∃ x' es, Step ans (.starting s) x' es := by
  cases s with
  | just es => exact ⟨_, _, .just es⟩
  | request q k => exact ⟨_, _, .request q k⟩
  | flattenMap s f => exact ⟨_, _, .flattenMap s f⟩
  | combineLatestWith s t => exact ⟨_, _, .combineLatestWith s t⟩
  | forwardNext g s => exact ⟨_, _, .forwardNext g s⟩
  | deliverOnMainThread s => exact ⟨_, _, .deliverOnMainThread s⟩
  | subscribeOn s => exact ⟨_, _, .subscribeOn s⟩

/-- A subscription without a step is quiet.  The recursion is on the
subscription; a `flattenMap` also recurses into the streams it runs. -/
theorem quiet_of_not_step : ∀ (x : Sub Q A α),
    (∀ x' es, ¬Step ans x x' es) → Quiet x
  | .idle, _ => .idle
  | .starting s, h => by
    obtain ⟨x', es, hs⟩ := exists_step_starting ans s
    exact absurd hs (h x' es)
  | .waiting q k, h => absurd (.answer q k) (h _ _)
  | .binding f x b ys, h => by
    refine .binding (quiet_of_not_step x fun x' es hs => h _ _ (.source hs)) ?_
    rintro ⟨y, c⟩ hy
    refine quiet_of_not_step y fun y' es hs => ?_
    obtain ⟨us, vs, rfl⟩ := List.append_of_mem hy
    exact h _ _ (.inner hs)
  | .combining l lo lv r ro rv, h =>
    .combining (quiet_of_not_step l fun _ _ hs => h _ _ (.left hs))
      (quiet_of_not_step r fun _ _ hs => h _ _ (.right hs))
  | .forwarding g x b, h =>
    .forwarding (quiet_of_not_step x fun _ _ hs => h _ _ (.forward hs))
  | .delivering x b [], h =>
    .delivering (quiet_of_not_step x fun _ _ hs => h _ _ (.enqueue hs))
  | .delivering x b (e :: queue), h => absurd (.mainQueue x b e queue) (h _ _)
decreasing_by
  all_goals simp_wf
  all_goals first
    | omega
    | have := List.sizeOf_lt_of_mem hy
      simp only [Prod.mk.sizeOf_spec] at this
      omega

/-- **A subscription is quiet exactly when it has no step left.** -/
theorem quiet_iff (ans : (q : Q) → A q) (x : Sub Q A α) :
    Quiet x ↔ ∀ x' es, ¬Step ans x x' es :=
  ⟨Quiet.not_step, quiet_of_not_step x⟩

/-! ### Termination -/

/-- `x'` comes one step after `x`. -/
def After (ans : (q : Q) → A q) (x' x : Sub Q A α) : Prop := ∃ es, Step ans x x' es

/-- Every run from `x` is finite. -/
def Terminates (ans : (q : Q) → A q) (x : Sub Q A α) : Prop := Acc (After ans) x

theorem Terminates.step {x x' : Sub Q A α} {es : List (Event α)} (h : Terminates ans x)
    (hs : Step ans x x' es) : Terminates ans x' := Acc.inv h ⟨es, hs⟩

theorem terminates_idle : Terminates ans (.idle : Sub Q A α) :=
  Acc.intro _ fun _ ⟨_, h⟩ => by cases h

theorem terminates_waiting (q : Q) (k : A q → List (Event α)) :
    Terminates ans (.waiting q k) := by
  refine Acc.intro _ fun x' ⟨es, h⟩ => ?_
  cases h with
  | answer => exact terminates_idle

/-- One element of a list is replaced by a smaller one. -/
def OneBelow {β : Type} (r : β → β → Prop) (l' l : List β) : Prop :=
  ∃ ys y y' zs, l = ys ++ y :: zs ∧ l' = ys ++ y' :: zs ∧ r y' y

theorem acc_oneBelow_cons {β : Type} {r : β → β → Prop} {a : β} {l : List β}
    (ha : Acc r a) (hl : Acc (OneBelow r) l) : Acc (OneBelow r) (a :: l) := by
  induction ha generalizing l with
  | intro a _ iha =>
    induction hl with
    | intro l hl ihl =>
      apply Acc.intro
      rintro l' ⟨ys, y, y', zs, heq, rfl, hy⟩
      cases ys with
      | nil =>
        -- the head moves, the tail is as it was
        obtain ⟨rfl, rfl⟩ : a = y ∧ l = zs := by simpa using heq
        exact iha y' hy (Acc.intro _ hl)
      | cons u us =>
        obtain ⟨rfl, rfl⟩ : a = u ∧ l = us ++ y :: zs := by simpa using heq
        exact ihl _ ⟨us, y, y', zs, rfl, rfl, hy⟩

theorem acc_oneBelow {β : Type} {r : β → β → Prop} :
    ∀ l : List β, (∀ a ∈ l, Acc r a) → Acc (OneBelow r) l := by
  intro l
  induction l with
  | nil =>
    intro _
    apply Acc.intro
    rintro l' ⟨ys, y, y', zs, heq, -, -⟩
    simp at heq
  | cons a l ih =>
    intro h
    exact acc_oneBelow_cons (h a (by simp)) (ih fun b hb => h b (by simp [hb]))

/-- The streams a `flattenMap` has subscribed to, compared without their flags. -/
def InnerAfter (ans : (q : Q) → A q) (y' y : Sub Q A α × Bool) : Prop :=
  After ans y'.1 y.1

theorem mem_added {f : Value α → Signal Q A α} {y : Sub Q A α × Bool} :
    ∀ {es : List (Event α)}, y ∈ added f es → ∃ v, y.1 = .starting (f v) := by
  intro es
  induction es with
  | nil => intro h; simp [added] at h
  | cons e es ih =>
    intro h
    cases e with
    | next v =>
      rcases List.mem_cons.mp h with rfl | h
      · exact ⟨v, rfl⟩
      · exact ih h
    | error => exact ih h
    | completed => exact ih h
    | crash c => exact ih h

/-- A `flattenMap` terminates when its source and every stream it can subscribe
to do: a step of the source lets the list of streams grow, a step of a stream
leaves the source alone. -/
theorem terminates_binding {f : Value α → Signal Q A α}
    (hf : ∀ v, Terminates ans (.starting (f v))) {x : Sub Q A α} (hx : Terminates ans x) :
    ∀ (b : Bool) (ys : List (Sub Q A α × Bool)), (∀ y ∈ ys, Terminates ans y.1) →
      Terminates ans (.binding f x b ys) := by
  induction hx with
  | intro x _ ihx =>
    intro b ys hys
    have hacc : Acc (OneBelow (InnerAfter ans)) ys :=
      acc_oneBelow ys fun y hy => InvImage.accessible Prod.fst (hys y hy)
    induction hacc generalizing b with
    | intro ys _ ihys =>
      refine Acc.intro _ fun z ⟨es, h⟩ => ?_
      cases h with
      | source h =>
        refine ihx _ ⟨_, h⟩ _ _ fun y hy => ?_
        rcases List.mem_append.mp hy with hy | hy
        · exact hys y hy
        · obtain ⟨v, hv⟩ := mem_added hy
          rw [hv]
          exact hf v
      | @inner _ _ y y' _ c us vs es h =>
        refine ihys _ ⟨us, (y, c), _, vs, rfl, rfl, ⟨_, h⟩⟩ _ fun u hu => ?_
        rcases List.mem_append.mp hu with hu | hu
        · exact hys u (by simp [hu])
        · rcases List.mem_cons.mp hu with rfl | hu
          · exact (hys (y, c) (by simp)).step h
          · exact hys u (by simp [hu])

theorem terminates_combining {l r : Sub Q A α} (hl : Terminates ans l)
    (hr : Terminates ans r) : ∀ (lo : Bool) (lv : Option (Value α)) (ro : Bool)
      (rv : Option (Value α)), Terminates ans (.combining l lo lv r ro rv) := by
  induction hl generalizing r with
  | intro l _ ihl =>
    induction hr with
    | intro r hr ihr =>
      intro lo lv ro rv
      refine Acc.intro _ fun z ⟨es, h⟩ => ?_
      cases h with
      | left h => exact ihl _ ⟨_, h⟩ (Acc.intro _ hr) _ _ _ _
      | right h => exact ihr _ ⟨_, h⟩ _ _ _ _

theorem terminates_forwarding {g : Value α → Option (Value α)} {x : Sub Q A α}
    (hx : Terminates ans x) : ∀ b : Bool, Terminates ans (.forwarding g x b) := by
  induction hx with
  | intro x _ ih =>
    intro b
    refine Acc.intro _ fun z ⟨es, h⟩ => ?_
    cases h with
    | forward h => exact ih _ ⟨_, h⟩ _

theorem terminates_delivering {x : Sub Q A α} (hx : Terminates ans x) :
    ∀ (b : Bool) (queue : List (Event α)), Terminates ans (.delivering x b queue) := by
  induction hx with
  | intro x _ ih =>
    intro b queue
    induction queue with
    | nil =>
      refine Acc.intro _ fun z ⟨es, h⟩ => ?_
      cases h with
      | enqueue h => exact ih _ ⟨_, h⟩ _ _
    | cons e queue ihq =>
      refine Acc.intro _ fun z ⟨es, h⟩ => ?_
      cases h with
      | enqueue h => exact ih _ ⟨_, h⟩ _ _
      | mainQueue => exact ihq

/-- **Every subscription to a signal terminates**, by recursion on the signal:
whatever the order of its steps, it has finitely many. -/
theorem terminates_starting (ans : (q : Q) → A q) (s : Signal Q A α) :
    Terminates ans (.starting s) := by
  induction s with
  | just es =>
    refine Acc.intro _ fun z ⟨_, h⟩ => ?_
    cases h
    exact terminates_idle
  | request q k =>
    refine Acc.intro _ fun z ⟨_, h⟩ => ?_
    cases h
    exact terminates_waiting q k
  | flattenMap s f ihs ihf =>
    refine Acc.intro _ fun z ⟨_, h⟩ => ?_
    cases h
    exact terminates_binding ihf ihs true [] (by simp)
  | combineLatestWith s t ihs iht =>
    refine Acc.intro _ fun z ⟨_, h⟩ => ?_
    cases h
    exact terminates_combining ihs iht _ _ _ _
  | forwardNext g s ih =>
    refine Acc.intro _ fun z ⟨_, h⟩ => ?_
    cases h
    exact terminates_forwarding ih true
  | deliverOnMainThread s ih =>
    refine Acc.intro _ fun z ⟨_, h⟩ => ?_
    cases h
    exact terminates_delivering ih true []
  | subscribeOn s ih =>
    refine Acc.intro _ fun z ⟨_, h⟩ => ?_
    cases h
    exact ih

/-! ### Maximal runs -/

theorem Run.trans {x y z : Sub Q A α} {es es' : List (Event α)} (h : Run ans x y es)
    (h' : Run ans y z es') : Run ans x z (es ++ es') := by
  induction h' with
  | refl => simpa using h
  | tail _ hs ih =>
    rw [← List.append_assoc]
    exact ih.tail hs

theorem Run.single {x y : Sub Q A α} {es : List (Event α)} (h : Step ans x y es) :
    Run ans x y es := by
  simpa using Run.tail .refl h

/-- **A terminating subscription can be run to a quiet state.** -/
theorem exists_quiet_run {x : Sub Q A α} (h : Terminates ans x) :
    ∃ x' sent, Run ans x x' sent ∧ Quiet x' := by
  induction h with
  | intro x _ ih =>
    by_cases hx : Quiet x
    · exact ⟨x, [], .refl, hx⟩
    · rw [quiet_iff ans x, not_forall] at hx
      obtain ⟨y, hy⟩ := hx
      obtain ⟨es, hy⟩ := not_forall_not.mp hy
      obtain ⟨x', sent, hr, hq⟩ := ih y ⟨es, hy⟩
      exact ⟨x', es ++ sent, (Run.single hy).trans hr, hq⟩

end Reactive
