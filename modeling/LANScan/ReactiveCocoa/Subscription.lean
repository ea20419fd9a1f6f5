import LANScan.ReactiveCocoa.Subscriber

/-!
# The end of subscriptions

A subscriber disposes of all its subscriptions when it gets a terminal message or nobody holds
it any more, and anybody may dispose of one of them before.  Either way what the subscription
holds is disposed of, and the last thing that it holds takes it away from its subscriber.

## Main definitions

* `Subscription.Ok`, `Tidy` — the invariant of the subscriptions of a subscriber.
* `GoesOn`, `Changes` — what a step leaves alone, and what it changes otherwise.
* `Subscribing.GoneOk`, `Subscribing.IsSpent` — what has been disposed of, and is added no more.

## Main results

* `subscriptions_end` — **when no call is under way, exactly those subscriptions have been
  disposed of that somebody has disposed of or whose subscriber has got a terminal message or
  is no more, with whatever was added to them, as often as it was.**
-/

namespace LANScan.ReactiveCocoa

open Reactive

variable {α : Type} {next error completed : Bool} {s s' : Subscribing α}
  {e : SubscribingEvent α} {sub : Subscription} {subscriber : RACSubscriber}
  {disposals : List Disposal} {due : Prop} {i : ℕ}

/-! ### The invariant -/

/-- The subscription `i` with its subscriber and the disposals under way, and whether one of
its own is.  What has been added is held, about to be disposed of or disposed of. -/
structure Subscription.Ok (subscriber : RACSubscriber) (disposals : List Disposal) (due : Prop)
    (i : ℕ) (sub : Subscription) : Prop where
  count_eq : ∀ d, sub.added.count d = sub.disposable.contents.count d +
    disposals.count (.held i d) + sub.released.count d
  count_purge : sub.added.count purge =
    if sub.stage = .started ∨ sub.stage = .returned then 1 else 0
  is_open : sub.disposable.disposed = false →
    sub.released = [] ∧ sub.asked = false ∧ ∀ d, disposals.count (.held i d) = 0
  is_closed : sub.disposable.disposed = true → sub.disposable.contents = [] ∧
    sub.stage ≠ .created ∧ (sub.asked = true ∨ subscriber.disposable.disposed = true)
  attached : subscriber.disposable.disposed = false →
    (i + 1 ∈ subscriber.disposable.contents ↔ sub.stage ≠ .created ∧ purge ∉ sub.released)
  ends : subscriber.disposable.disposed = true → sub.stage ≠ .created →
    sub.disposable.disposed = true ∨ due
  due_created : due → sub.stage ≠ .created

/-- What a call with the lock has still to dispose of. -/
def Frame.rest : Frame α → List Ref
  | .running => []
  | .disposing _ _ rest => rest

/-- Somebody is about to dispose of the subscription. -/
def Subscribing.Due (s : Subscribing α) (i : ℕ) : Prop :=
  .subscription i ∈ s.disposals ∨ ∃ f ∈ s.frames, i + 1 ∈ f.rest

/-- All subscriptions are as they should be, where one may be about to be disposed of by the
step that is being made. -/
structure Tidy (busy : Option ℕ) (s : Subscribing α) : Prop where
  ok : ∀ (i : ℕ) (sub : Subscription), s.subscriptions[i]? = some sub →
    sub.Ok s.subscriber s.disposals (s.Due i ∨ busy = some i) i
  contents : s.subscriber.disposable.disposed = true → s.subscriber.disposable.contents = []
  member_lt : ∀ i, i + 1 ∈ s.subscriber.disposable.contents → i < s.subscriptions.length
  held_lt : ∀ i d, .held i d ∈ s.disposals → i < s.subscriptions.length
  due_lt : ∀ i, s.Due i ∨ busy = some i →
    i < s.subscriptions.length ∧ s.subscriber.disposable.disposed = true

namespace Subscription

/-- What an entry of the invariant depends on. -/
theorem Ok.congr (h : sub.Ok subscriber disposals due i) {subscriber' : RACSubscriber}
    {disposals' : List Disposal} {due' : Prop}
    (hdisposed : subscriber'.disposable.disposed = subscriber.disposable.disposed)
    (hmem : i + 1 ∈ subscriber'.disposable.contents ↔ i + 1 ∈ subscriber.disposable.contents)
    (hcount : ∀ d, disposals'.count (.held i d) = disposals.count (.held i d))
    (hdue : due ↔ due') : sub.Ok subscriber' disposals' due' i where
  count_eq d := by rw [hcount, h.count_eq]
  count_purge := h.count_purge
  is_open hopen := by
    obtain ⟨hreleased, hasked, hnone⟩ := h.is_open hopen
    exact ⟨hreleased, hasked, fun d => (hcount d).trans (hnone d)⟩
  is_closed hclosed := by rw [hdisposed]; exact h.is_closed hclosed
  attached hopen := by
    rw [hdisposed] at hopen
    rw [hmem, h.attached hopen]
  ends hclosed hstage := by
    rw [hdisposed] at hclosed
    exact (h.ends hclosed hstage).imp_right hdue.mp
  due_created hdue' := h.due_created (hdue.mpr hdue')

/-- A disposal that is not one of what the subscription holds. -/
theorem count_append_of_ne {l : List Disposal} (hne : ∀ d, Disposal.held i d ∉ l) (d : Ref) :
    (disposals ++ l).count (.held i d) = disposals.count (.held i d) := by
  rw [List.count_append, List.count_eq_zero_of_not_mem (hne d), Nat.add_zero]

theorem count_map_held (l : List Ref) (d : Ref) :
    (l.map (Disposal.held i)).count (.held i d) = l.count d := by
  induction l with
  | nil => rfl
  | cons x l ih => simp [List.count_cons, ih]

theorem held_notMem_map {j : ℕ} (hne : j ≠ i) (l : List Ref) (d : Ref) :
    Disposal.held j d ∉ l.map (Disposal.held i) := by
  intro hmem
  obtain ⟨x, -, heq⟩ := List.mem_map.mp hmem
  exact hne (Disposal.held.inj heq).1.symm

theorem addDisposable_of_closed (sub : Subscription) (hclosed : sub.disposable.disposed = true)
    (d : Ref) :
    sub.addDisposable d = ({ sub with added := sub.added ++ [d] }, [d]) := by
  rw [addDisposable, RACCompoundDisposable.addDisposable_of_disposed hclosed]
  rfl

theorem addDisposable_of_open (sub : Subscription) (hopen : sub.disposable.disposed = false)
    (d : Ref) :
    sub.addDisposable d =
      ({ sub with
          disposable := (sub.disposable.addDisposable d).1
          added := sub.added ++ [d] }, []) := by
  obtain ⟨hshould, -, -⟩ := RACCompoundDisposable.addDisposable_spec hopen d
  simp only [addDisposable, hshould, Bool.false_eq_true, if_false]

/-- One more thing is held, or disposed of at once. -/
theorem Ok.addDisposable (h : sub.Ok subscriber disposals due i) (hcreated : sub.stage ≠ .created)
    {stage : Stage} (hstage : stage ≠ .created) {d : Ref}
    (hpurge : (sub.added ++ [d]).count purge =
      if stage = .started ∨ stage = .returned then 1 else 0) :
    (({ sub with stage := stage } : Subscription).addDisposable d).1.Ok subscriber
      (disposals ++ (({ sub with stage := stage } : Subscription).addDisposable d).2.map
        (.held i)) due i := by
  have hattached : subscriber.disposable.disposed = false →
      (i + 1 ∈ subscriber.disposable.contents ↔ stage ≠ .created ∧ purge ∉ sub.released) := by
    intro hopen
    rw [h.attached hopen]
    exact and_congr_left' (iff_of_true hcreated hstage)
  cases hd : sub.disposable.disposed with
  | true =>
    have hadd : ({ sub with stage := stage } : Subscription).addDisposable d =
        ({ sub with stage := stage, added := sub.added ++ [d] }, [d]) :=
      addDisposable_of_closed { sub with stage := stage } hd d
    rw [hadd]
    obtain ⟨hcontents, -, hwhy⟩ := h.is_closed hd
    refine ⟨fun x => ?_, hpurge, fun hopen => ?_, fun _ => ⟨hcontents, hstage, hwhy⟩, hattached,
      fun _ _ => Or.inl hd, fun _ => hstage⟩
    · show (sub.added ++ [d]).count x = sub.disposable.contents.count x +
        (disposals ++ [Disposal.held i d]).count _ + sub.released.count x
      have hcount := h.count_eq x
      have hone : [Disposal.held i d].count (.held i x) = [d].count x := count_map_held [d] x
      rw [List.count_append, List.count_append, hone]
      omega
    · exact absurd (hd.symm.trans hopen) (by decide)
  | false =>
    have hadd : ({ sub with stage := stage } : Subscription).addDisposable d =
        ({ sub with
            disposable := (sub.disposable.addDisposable d).1
            stage := stage
            added := sub.added ++ [d] }, []) :=
      addDisposable_of_open { sub with stage := stage } hd d
    rw [hadd]
    obtain ⟨-, hopen, hperm⟩ := RACCompoundDisposable.addDisposable_spec hd d
    obtain ⟨hreleased, hasked, hnone⟩ := h.is_open hd
    refine ⟨fun x => ?_, hpurge, fun _ => ⟨hreleased, hasked, fun x => ?_⟩, fun hclosed => ?_,
      hattached, fun hclosed _ => ?_, fun _ => hstage⟩
    · show (sub.added ++ [d]).count x =
        (sub.disposable.addDisposable d).1.contents.count x + (disposals ++ []).count _ +
          sub.released.count x
      have hcount := h.count_eq x
      have hadded : (sub.disposable.addDisposable d).1.contents.count x =
          [d].count x + sub.disposable.contents.count x := by
        rw [hperm.count_eq x]
        show ([d] ++ sub.disposable.contents).count x = _
        exact List.count_append
      rw [List.count_append, List.append_nil, hadded]
      omega
    · show (disposals ++ []).count _ = 0
      rw [List.append_nil]
      exact hnone x
    · exact absurd (hopen.symm.trans hclosed) (by decide)
    · rcases h.ends hclosed hcreated with hd' | hdue
      · exact absurd (hd.symm.trans hd') (by decide)
      · exact Or.inr hdue

/-- The subscription block returns without a disposable. -/
theorem Ok.returned (h : sub.Ok subscriber disposals due i) (hstarted : sub.stage = .started) :
    ({ sub with stage := .returned } : Subscription).Ok subscriber disposals due i := by
  have hcreated : sub.stage ≠ .created := by
    rw [hstarted]
    decide
  refine ⟨h.count_eq, ?_, h.is_open, fun hclosed => ?_, fun hopen => ?_,
    fun hclosed _ => h.ends hclosed hcreated, fun _ h => by cases h⟩
  · rw [if_pos (Or.inr rfl)]
    exact h.count_purge.trans (if_pos (Or.inl hstarted))
  · obtain ⟨hcontents, -, hwhy⟩ := h.is_closed hclosed
    exact ⟨hcontents, fun h => (by cases h), hwhy⟩
  · rw [h.attached hopen]
    simp [hcreated]

/-- **All that is held is handed to the disposals.** -/
theorem Ok.dispose (h : sub.Ok subscriber disposals due i) (hcreated : sub.stage ≠ .created)
    {asked : Bool} (hwhy : asked = true ∨ subscriber.disposable.disposed = true) {due' : Prop} :
    (({ sub with asked := asked } : Subscription).dispose).1.Ok subscriber
      (disposals ++ (({ sub with asked := asked } : Subscription).dispose).2.map (.held i))
        due' i := by
  have hcontents : sub.disposable.dispose.1.contents = [] :=
    RACCompoundDisposable.contents_dispose _
  refine ⟨fun x => ?_, h.count_purge, fun hopen => (by cases hopen),
    fun _ => ⟨hcontents, hcreated, hwhy⟩, h.attached, fun _ _ => Or.inl rfl, fun _ => hcreated⟩
  show sub.added.count x = sub.disposable.dispose.1.contents.count x +
    (disposals ++ sub.disposable.contents.map (Disposal.held i)).count _ + sub.released.count x
  have hcount := h.count_eq x
  rw [hcontents, List.count_append, count_map_held, List.count_nil]
  omega

end Subscription

/-! ### What steps leave alone -/

/-- A subscription whose disposable others can have. -/
def Subscribing.HasBegun (s : Subscribing α) (i : ℕ) : Prop :=
  ∃ sub, s.subscriptions[i]? = some sub ∧ sub.stage ≠ .created

/-- What is about to be added is no purge, and its subscription has begun. -/
def Subscribing.AdditionsOk (s : Subscribing α) : Prop :=
  ∀ p ∈ s.additions, s.HasBegun p.1 ∧ p.2 ≠ purge

/-- What a disposal of something that was held leaves alone. -/
theorem disposeHeld_fields (s : Subscribing α) (i : ℕ) (d : Ref) :
    (s.disposeHeld i d).subscriptions = s.subscriptions ∧
      (s.disposeHeld i d).frames = s.frames ∧ (s.disposeHeld i d).disposals = s.disposals ∧
      (s.disposeHeld i d).additions = s.additions ∧
      (s.disposeHeld i d).entered = s.entered ∧ (s.disposeHeld i d).inFlight = s.inFlight := by
  unfold Subscribing.disposeHeld
  split
  next => exact ⟨rfl, rfl, rfl, rfl, rfl, rfl⟩
  next =>
    split
    next => exact ⟨rfl, rfl, rfl, rfl, rfl, rfl⟩
    next => exact ⟨rfl, rfl, rfl, rfl, rfl, rfl⟩

/-- A disposable that a subscription makes for itself. -/
def IsOwn (d : Ref) : Prop := d = purge ∨ d = innerDisposable

/-- What is disposed of is recorded, if it is none that subscriptions make. -/
theorem mem_gone_disposeHeld (s : Subscribing α) (i : ℕ) (d x : Ref) :
    x ∈ (s.disposeHeld i d).gone ↔ x ∈ s.gone ∨ x = d ∧ ¬IsOwn d := by
  unfold Subscribing.disposeHeld IsOwn
  split
  next h => simp [h]
  next h =>
    split
    next h' => simp [h']
    next h' => simp [h, h']

/-- What a message that gets the lock does to the messages and the subscriptions. -/
theorem enter_fields (s : Subscribing α) (m : InFlight α) :
    (s.enter m).subscriptions = s.subscriptions ∧
      (s.enter m).entered = s.entered ++ [(m.via, m.message)] ∧
      (s.enter m).inFlight = s.inFlight ∧ (s.enter m).additions = s.additions ∧
      (s.enter m).gone = s.gone := by
  cases hterminal : m.message.event.terminal with
  | true =>
    rw [enter_of_terminal s hterminal]
    exact ⟨rfl, rfl, rfl, rfl, rfl⟩
  | false =>
    cases hlistens : s.subscriber.listens m.message.event with
    | true =>
      rw [enter_of_listens hterminal hlistens]
      exact ⟨rfl, rfl, rfl, rfl, rfl⟩
    | false =>
      rw [enter_of_not_listens hterminal hlistens]
      exact ⟨rfl, rfl, rfl, rfl, rfl⟩

/-- What has begun stays begun, what has been disposed of stays so, and nothing is added but
what is new. -/
structure Subscription.Grows (new : Ref → Prop) (sub sub' : Subscription) : Prop where
  begun : sub.stage ≠ .created → sub'.stage ≠ .created
  closed : sub.disposable.disposed = true → sub'.disposable.disposed = true
  added : ∀ d, ¬new d → sub'.added.count d = sub.added.count d

theorem Subscription.grows_addDisposable (new : Ref → Prop) (sub : Subscription) {d : Ref}
    (hd : new d) : sub.Grows new (sub.addDisposable d).1 := by
  refine ⟨id, (RACCompoundDisposable.disposed_addDisposable sub.disposable d).trans,
    fun x hx => ?_⟩
  show (sub.added ++ [d]).count x = _
  have hmem : x ∉ [d] := fun h => hx (List.mem_singleton.mp h ▸ hd)
  rw [List.count_append, List.count_eq_zero_of_not_mem hmem, Nat.add_zero]

/-- A subscription may have disposed of it. -/
def Subscribing.Freed (s : Subscribing α) (d : Ref) : Prop := IsOwn d ∨ d ∈ s.gone

/-- A step brings neither messages nor calls of `addDisposable:`, the subscriptions go on, with
only what is new added, and what they dispose of is recorded. -/
structure GoesOn (new : ℕ → Ref → Prop) (s s' : Subscribing α) : Prop where
  grows : ∀ (i : ℕ) (sub : Subscription), s.subscriptions[i]? = some sub →
    ∃ sub', s'.subscriptions[i]? = some sub' ∧ sub.Grows (new i) sub'
  released : ∀ (i : ℕ) (sub' : Subscription), s'.subscriptions[i]? = some sub' →
    ∀ d ∈ sub'.released, s'.Freed d ∨ ∃ sub, s.subscriptions[i]? = some sub ∧ d ∈ sub.released
  gone : ∀ d ∈ s.gone, d ∈ s'.gone
  gone_new : ∀ d ∈ s'.gone, d ∈ s.gone ∨ ¬IsOwn d
  additions_eq : s'.additions = s.additions
  entered_eq : s'.entered = s.entered
  inFlight_eq : s'.inFlight = s.inFlight

namespace GoesOn

variable {new : ℕ → Ref → Prop}

theorem hasBegun (h : GoesOn new s s') (hbegun : s.HasBegun i) : s'.HasBegun i := by
  obtain ⟨sub, hsub, hstage⟩ := hbegun
  obtain ⟨sub', hsub', hgrows⟩ := h.grows i sub hsub
  exact ⟨sub', hsub', hgrows.begun hstage⟩

theorem freed (h : GoesOn new s s') {d : Ref} (hd : s.Freed d) : s'.Freed d :=
  hd.imp_right (h.gone d)

/-- The subscriptions stay as they are. -/
theorem of_gone (hsubs : s'.subscriptions = s.subscriptions)
    (hgone : ∀ d ∈ s.gone, d ∈ s'.gone) (hnew : ∀ d ∈ s'.gone, d ∈ s.gone ∨ ¬IsOwn d)
    (hadditions : s'.additions = s.additions) (hentered : s'.entered = s.entered)
    (hinFlight : s'.inFlight = s.inFlight) : GoesOn new s s' :=
  ⟨fun _ sub hsub => ⟨sub, hsubs ▸ hsub, id, id, fun _ _ => rfl⟩,
    fun _ sub' hsub' _ hd => Or.inr ⟨sub', hsubs ▸ hsub', hd⟩, hgone, hnew, hadditions, hentered,
    hinFlight⟩

theorem of_eq (hsubs : s'.subscriptions = s.subscriptions) (hgone : s'.gone = s.gone)
    (hadditions : s'.additions = s.additions) (hentered : s'.entered = s.entered)
    (hinFlight : s'.inFlight = s.inFlight) : GoesOn new s s' :=
  of_gone hsubs (fun _ hd => hgone ▸ hd) (fun _ hd => Or.inl (hgone ▸ hd)) hadditions hentered
    hinFlight

theorem refl (s : Subscribing α) : GoesOn new s s :=
  of_eq rfl rfl rfl rfl rfl

theorem trans {s₁ s₂ s₃ : Subscribing α} (h₁ : GoesOn new s₁ s₂) (h₂ : GoesOn new s₂ s₃) :
    GoesOn new s₁ s₃ where
  grows i sub hsub := by
    obtain ⟨sub₂, hsub₂, hgrows₂⟩ := h₁.grows i sub hsub
    obtain ⟨sub₃, hsub₃, hgrows₃⟩ := h₂.grows i sub₂ hsub₂
    exact ⟨sub₃, hsub₃, hgrows₃.begun ∘ hgrows₂.begun, hgrows₃.closed ∘ hgrows₂.closed,
      fun d hd => (hgrows₃.added d hd).trans (hgrows₂.added d hd)⟩
  released i sub₃ hsub₃ d hd := by
    rcases h₂.released i sub₃ hsub₃ d hd with hfreed | ⟨sub₂, hsub₂, hd⟩
    · exact Or.inl hfreed
    · exact (h₁.released i sub₂ hsub₂ d hd).imp_left h₂.freed
  gone d hd := h₂.gone d (h₁.gone d hd)
  gone_new d hd := by
    rcases h₂.gone_new d hd with hd | hd
    · exact h₁.gone_new d hd
    · exact Or.inr hd
  additions_eq := h₂.additions_eq.trans h₁.additions_eq
  entered_eq := h₂.entered_eq.trans h₁.entered_eq
  inFlight_eq := h₂.inFlight_eq.trans h₁.inFlight_eq

/-- One subscription goes on. -/
theorem of_set {j : ℕ} {sub' : Subscription} (hsub : s.subscriptions[j]? = some sub)
    (hgrows : sub.Grows (new j) sub')
    (hreleased : ∀ d ∈ sub'.released, d ∈ sub.released ∨ s.Freed d)
    (hsubs : s'.subscriptions = s.subscriptions.set j sub') (hgone : s'.gone = s.gone)
    (hadditions : s'.additions = s.additions) (hentered : s'.entered = s.entered)
    (hinFlight : s'.inFlight = s.inFlight) : GoesOn new s s' := by
  refine ⟨fun i m hm => ?_, fun i m hm d hd => ?_, fun d hd => hgone ▸ hd,
    fun d hd => Or.inl (hgone ▸ hd), hadditions, hentered, hinFlight⟩
  · rw [hsubs]
    by_cases hij : i = j
    · subst hij
      obtain rfl := Option.some.inj (hsub.symm.trans hm)
      exact ⟨sub', getElem?_set_self' hsub, hgrows⟩
    · exact ⟨m, (List.getElem?_set_ne (fun hji => hij hji.symm)).trans hm, id, id, fun _ _ => rfl⟩
  · rw [hsubs] at hm
    rcases getElem?_set_cases hm with ⟨rfl, rfl⟩ | ⟨-, hm⟩
    · rcases hreleased d hd with hd | hd
      · exact Or.inr ⟨sub, hsub, hd⟩
      · refine Or.inl (hd.imp_right fun hd => ?_)
        rwa [hgone]
    · exact Or.inr ⟨m, hm, hd⟩

end GoesOn

theorem locked_goesOn {new : ℕ → Ref → Prop} {body : Subscription → Subscription × List Ref}
    (hs : s.locked i body = some s')
    (hbody : ∀ sub : Subscription, sub.Grows (new i) (body sub).1)
    (hreleased : ∀ sub, ∀ d ∈ (body sub).1.released, d ∈ sub.released ∨ s.Freed d) :
    GoesOn new s s' := by
  obtain ⟨sub, hsub, hs⟩ := Option.bind_eq_some_iff.mp hs
  obtain rfl := Option.some.inj hs
  exact .of_set hsub (hbody sub) (hreleased sub) rfl rfl rfl rfl rfl

theorem lock_goesOn {d : Ref} (hs : s.locked i (Subscription.addDisposable d) = some s') :
    GoesOn (fun j x => j = i ∧ x = d) s s' :=
  locked_goesOn hs (fun sub => sub.grows_addDisposable _ ⟨rfl, rfl⟩) fun _ _ => Or.inl

theorem disposeHeld_goesOn {new : ℕ → Ref → Prop} (s : Subscribing α) (i : ℕ) (d : Ref) :
    GoesOn new s (s.disposeHeld i d) := by
  obtain ⟨hsubs, -, -, hadditions, hentered, hinFlight⟩ := disposeHeld_fields s i d
  refine .of_gone hsubs (fun x hx => ?_) (fun x hx => ?_) hadditions hentered hinFlight
  · exact (mem_gone_disposeHeld s i d x).mpr (Or.inl hx)
  · rcases (mem_gone_disposeHeld s i d x).mp hx with hx | ⟨rfl, hx⟩
    · exact Or.inl hx
    · exact Or.inr hx

theorem perform_goesOn {new : ℕ → Ref → Prop} {d : Disposal} (hs : s.perform d = some s') :
    GoesOn new s s' := by
  cases d with
  | subscription i =>
    rw [Subscribing.perform] at hs
    exact locked_goesOn hs (fun _ => ⟨id, fun _ => rfl, fun _ _ => rfl⟩) fun _ _ => Or.inl
  | held i d =>
    rw [Subscribing.perform] at hs
    have hfreed : (s.disposeHeld i d).Freed d := by
      by_cases hd : IsOwn d
      · exact Or.inl hd
      · exact Or.inr ((mem_gone_disposeHeld s i d d).mpr (Or.inr ⟨rfl, hd⟩))
    refine (disposeHeld_goesOn s i d).trans
      (locked_goesOn hs (fun _ => ⟨id, id, fun _ _ => rfl⟩) fun sub x hx => ?_)
    rcases List.mem_append.mp hx with hx | hx
    · exact Or.inl hx
    · obtain rfl := List.mem_singleton.mp hx
      exact Or.inr hfreed

theorem proceed_goesOn {new : ℕ → Ref → Prop} (hs : s.proceed = some s') : GoesOn new s s' := by
  cases proceeds_of_proceed hs with
  | returned => exact .of_eq rfl rfl rfl rfl rfl
  | called => exact .of_eq rfl rfl rfl rfl rfl
  | ended => exact .of_eq rfl rfl rfl rfl rfl
  | cleared => exact .of_eq rfl rfl rfl rfl rfl
  | @disposed m block i rest frames _ hf hs =>
    have h₁ : GoesOn new s { s with frames := .disposing m block rest :: frames } :=
      .of_eq rfl rfl rfl rfl rfl
    exact h₁.trans
      (locked_goesOn hs (fun _ => ⟨id, fun _ => rfl, fun _ _ => rfl⟩) fun _ _ => Or.inl)

/-- What a step changes of the messages, the additions and the record. -/
inductive Changes (s : Subscribing α) : Subscribing α → Prop
  | goesOn {s' : Subscribing α} (h : GoesOn (fun _ => IsOwn) s s') : Changes s s'
  /-- A call of `addDisposable:` goes on to the lock. -/
  | adds {i : ℕ} {d : Ref} (hbegun : s.HasBegun i) (hown : ¬IsOwn d) (hgone : d ∉ s.gone) :
    Changes s { s with additions := s.additions ++ [(i, d)] }
  | locks {k i : ℕ} {d : Ref} {s' : Subscribing α} (hp : s.additions[k]? = some (i, d))
    (h : GoesOn (fun j x => j = i ∧ x = d) { s with additions := s.additions.eraseIdx k } s') :
    Changes s s'
  | sends {m : InFlight α} (hopen : ∀ i, m.via = some i → ¬s.IsDisposed i) :
    Changes s { s with inFlight := s.inFlight ++ [m] }
  | enters {k : ℕ} {m : InFlight α} (hm : s.inFlight[k]? = some m) :
    Changes s (({ s with inFlight := s.inFlight.eraseIdx k } : Subscribing α).enter m)

/-- **What every step changes.** -/
theorem changes_of_next (hen : s.Enabled e) (hs : s.next e = some s') : Changes s s' := by
  cases e with
  | subscribe =>
    obtain rfl := Option.some.inj hs
    refine .goesOn ⟨fun i sub hsub => ⟨sub, ?_, id, id, fun _ _ => rfl⟩,
      fun i sub' hsub' d hd => ?_, fun _ => id, fun _ => Or.inl, rfl, rfl, rfl⟩
    · exact (List.getElem?_append_left (List.getElem?_eq_some_iff.mp hsub).1).trans hsub
    · rcases getElem?_append_cases hsub' with hsub | ⟨-, rfl⟩
      · exact Or.inr ⟨sub', hsub, hd⟩
      · cases hd
  | didSubscribeWithDisposable i =>
    obtain ⟨sub, hsub, hs⟩ := Option.bind_eq_some_iff.mp hs
    split at hs
    next =>
      obtain rfl := Option.some.inj hs
      refine .goesOn (.of_set hsub ?_ ?_ rfl rfl rfl rfl rfl)
      · exact ⟨fun _ h => (by cases h), id, fun _ _ => rfl⟩
      · exact fun _ => Or.inl
    next =>
      obtain rfl := Option.some.inj hs
      refine .goesOn (.of_set hsub ?_ ?_ rfl rfl rfl rfl rfl)
      · exact ⟨fun _ h => (by cases h), id, fun _ _ => rfl⟩
      · exact fun _ => Or.inl
  | addPurge i =>
    rw [Subscribing.next] at hs
    refine .goesOn (locked_goesOn hs (fun sub => ?_) fun _ _ => Or.inl)
    obtain ⟨-, hclosed, hadded⟩ :=
      Subscription.grows_addDisposable IsOwn { sub with stage := .started } (Or.inl rfl)
    exact ⟨fun _ h => (by cases h), hclosed, hadded⟩
  | returns i inner =>
    rw [Subscribing.next] at hs
    cases inner with
    | true =>
      refine .goesOn (locked_goesOn hs (fun sub => ?_) fun _ _ => Or.inl)
      obtain ⟨-, hclosed, hadded⟩ :=
        Subscription.grows_addDisposable IsOwn { sub with stage := .returned } (Or.inr rfl)
      exact ⟨fun _ h => (by cases h), hclosed, hadded⟩
    | false =>
      refine .goesOn (locked_goesOn hs (fun sub => ?_) fun _ _ => Or.inl)
      exact ⟨fun _ h => (by cases h), id, fun _ _ => rfl⟩
  | addDisposable i disposable =>
    obtain rfl := Option.some.inj hs
    obtain ⟨hi, hcreated, hown⟩ := hen
    cases disposable with
    | none => exact .goesOn (.refl s)
    | some d =>
      rw [Subscribing.addDisposable]
      split
      next => exact .goesOn (.refl s)
      next hgone =>
        obtain ⟨hpurge, hinner⟩ := hown d rfl
        have hbegun : s.HasBegun i := by
          refine ⟨_, List.getElem?_eq_getElem hi, fun hstage => hcreated ?_⟩
          rw [Subscribing.IsAt, List.getElem?_eq_getElem hi, Option.map_some, hstage]
        exact .adds hbegun (fun hd => hd.elim hpurge hinner) hgone
  | lock k =>
    obtain ⟨⟨i, d⟩, hp, hs⟩ := Option.bind_eq_some_iff.mp hs
    exact .locks hp (lock_goesOn hs)
  | disposeOf d =>
    obtain rfl := Option.some.inj hs
    refine .goesOn
      (.of_gone rfl (fun x hx => List.mem_append_left _ hx) (fun x hx => ?_) rfl rfl rfl)
    rcases List.mem_append.mp hx with hx | hx
    · exact Or.inl hx
    · obtain rfl := List.mem_singleton.mp hx
      exact Or.inr fun hown => hown.elim hen.1 hen.2
  | dispose i =>
    rw [Subscribing.next] at hs
    refine .goesOn (locked_goesOn hs (fun sub => ?_) fun _ _ => Or.inl)
    exact ⟨id, fun _ => rfl, fun _ _ => rfl⟩
  | send m =>
    rcases send_cases hs with ⟨rfl, -⟩ | ⟨rfl, hopen⟩
    · exact .goesOn (.refl s')
    · exact .sends hopen
  | enter k =>
    obtain ⟨m, hm, hs⟩ := Option.bind_eq_some_iff.mp hs
    obtain rfl := Option.some.inj hs
    exact .enters hm
  | proceed => exact .goesOn (proceed_goesOn hs)
  | step k =>
    obtain ⟨d, -, hs⟩ := Option.bind_eq_some_iff.mp hs
    have h₁ : GoesOn (fun _ => IsOwn) s { s with disposals := s.disposals.eraseIdx k } :=
      .of_eq rfl rfl rfl rfl rfl
    exact .goesOn (h₁.trans (perform_goesOn hs))
  | dealloc =>
    obtain rfl := Option.some.inj hs
    exact .goesOn (.of_eq rfl rfl rfl rfl rfl)

/-- **Every step keeps what is about to be added as it should be.** -/
theorem Subscribing.AdditionsOk.step (h : s.AdditionsOk) (hen : s.Enabled e)
    (hs : s.next e = some s') : s'.AdditionsOk := by
  intro p hp
  cases changes_of_next hen hs with
  | goesOn hgoesOn =>
    rw [hgoesOn.additions_eq] at hp
    exact ⟨hgoesOn.hasBegun (h p hp).1, (h p hp).2⟩
  | adds hbegun hown =>
    rcases List.mem_append.mp hp with hp | hp
    · exact h p hp
    · obtain rfl := List.mem_singleton.mp hp
      exact ⟨hbegun, fun hpurge => hown (Or.inl hpurge)⟩
  | locks _ hgoesOn =>
    rw [hgoesOn.additions_eq] at hp
    obtain ⟨hbegun, hpurge⟩ := h p (List.mem_of_mem_eraseIdx hp)
    exact ⟨hgoesOn.hasBegun hbegun, hpurge⟩
  | sends => exact h p hp
  | @enters k m =>
    obtain ⟨hsubs, -, -, hadditions, -⟩ :=
      enter_fields ({ s with inFlight := s.inFlight.eraseIdx k } : Subscribing α) m
    rw [hadditions] at hp
    rw [Subscribing.HasBegun, hsubs]
    exact h p hp

/-! ### What has been disposed of -/

/-- What subscriptions have disposed of is recorded, apart from what they make themselves. -/
structure Subscribing.GoneOk (s : Subscribing α) : Prop where
  not_own : ∀ d ∈ s.gone, ¬IsOwn d
  freed : ∀ (i : ℕ) (sub : Subscription), s.subscriptions[i]? = some sub →
    ∀ d ∈ sub.released, s.Freed d

/-- Something that has been disposed of was added to a subscription so often, and is not about
to be. -/
structure Subscribing.IsSpent (s : Subscribing α) (i : ℕ) (d : Ref) (n : ℕ) : Prop where
  gone : d ∈ s.gone
  notMem : (i, d) ∉ s.additions
  count_added : ∃ sub, s.subscriptions[i]? = some sub ∧ sub.added.count d = n

theorem GoesOn.goneOk {new : ℕ → Ref → Prop} (hs : GoesOn new s s') (h : s.GoneOk) :
    s'.GoneOk where
  not_own d hd := (hs.gone_new d hd).elim (h.not_own d) id
  freed i sub' hsub' d hd := by
    rcases hs.released i sub' hsub' d hd with hfreed | ⟨sub, hsub, hd⟩
    · exact hfreed
    · exact hs.freed (h.freed i sub hsub d hd)

theorem GoesOn.isSpent {new : ℕ → Ref → Prop} {d : Ref} {n : ℕ} (hs : GoesOn new s s')
    (hnew : ¬new i d) (h : s.IsSpent i d n) : s'.IsSpent i d n := by
  obtain ⟨hgone, hmem, sub, hsub, hcount⟩ := h
  obtain ⟨sub', hsub', hgrows⟩ := hs.grows i sub hsub
  refine ⟨hs.gone d hgone, ?_, sub', hsub', (hgrows.added d hnew).trans hcount⟩
  rwa [hs.additions_eq]

/-- **Every step keeps the record.** -/
theorem Subscribing.GoneOk.step (h : s.GoneOk) (hen : s.Enabled e) (hs : s.next e = some s') :
    s'.GoneOk := by
  cases changes_of_next hen hs with
  | goesOn hgoesOn => exact hgoesOn.goneOk h
  | adds => exact ⟨h.not_own, h.freed⟩
  | locks _ hgoesOn => exact hgoesOn.goneOk ⟨h.not_own, h.freed⟩
  | sends => exact ⟨h.not_own, h.freed⟩
  | @enters k m =>
    obtain ⟨hsubs, -, -, -, hgone⟩ :=
      enter_fields ({ s with inFlight := s.inFlight.eraseIdx k } : Subscribing α) m
    refine ⟨fun d hd => ?_, fun i sub hsub d hd => ?_⟩
    · rw [hgone] at hd
      exact h.not_own d hd
    · rw [hsubs] at hsub
      rw [Subscribing.Freed, hgone]
      exact h.freed i sub hsub d hd

/-- **What has been disposed of is added no more**, in any step. -/
theorem Subscribing.IsSpent.step {d : Ref} {n : ℕ} (h : s.IsSpent i d n) (hok : s.GoneOk)
    (hen : s.Enabled e) (hs : s.next e = some s') : s'.IsSpent i d n := by
  cases changes_of_next hen hs with
  | goesOn hgoesOn => exact hgoesOn.isSpent (hok.not_own d h.gone) h
  | @adds j x _ _ hx =>
    refine ⟨h.gone, fun hmem => ?_, h.count_added⟩
    rcases List.mem_append.mp hmem with hmem | hmem
    · exact h.notMem hmem
    · obtain ⟨-, rfl⟩ := Prod.mk.inj (List.mem_singleton.mp hmem)
      exact hx h.gone
  | locks hp hgoesOn =>
    refine hgoesOn.isSpent ?_
      ⟨h.gone, fun hmem => h.notMem (List.mem_of_mem_eraseIdx hmem), h.count_added⟩
    rintro ⟨rfl, rfl⟩
    exact h.notMem (List.mem_of_getElem? hp)
  | sends => exact ⟨h.gone, h.notMem, h.count_added⟩
  | @enters k m =>
    obtain ⟨hsubs, -, -, hadditions, hgone⟩ :=
      enter_fields ({ s with inFlight := s.inFlight.eraseIdx k } : Subscribing α) m
    refine ⟨?_, ?_, ?_⟩
    · rw [hgone]
      exact h.gone
    · rw [hadditions]
      exact h.notMem
    · rw [hsubs]
      exact h.count_added

theorem goneOk_of_reachable (h : (subscribing α next error completed).Reachable s) :
    s.GoneOk := by
  refine h.invariant (I := Subscribing.GoneOk) ?_ ?_
  · exact ⟨fun d hd => (by cases hd), fun i sub hsub => (by cases hsub)⟩
  · rintro s e s' hok ⟨hen, hs⟩
    exact hok.step hen hs

/-- **What has been disposed of is added no more**, in any run. -/
theorem Subscribing.IsSpent.steps {d : Ref} {k n : ℕ} (h : s.IsSpent i d k) (hok : s.GoneOk)
    (hsteps : (subscribing α next error completed).Steps (fun _ _ => True) s n s') :
    s'.IsSpent i d k := by
  induction hsteps with
  | refl => exact h
  | step _ hs _ ih => exact ih (h.step hok hs.1 hs.2) (hok.step hs.1 hs.2)

/-! ### The invariant in every step -/

variable {busy busy' : Option ℕ} {d : Ref}

/-- What the invariant depends on. -/
theorem Tidy.congr (h : Tidy busy s) (hsubs : s'.subscriptions = s.subscriptions)
    (hdisposable : s'.subscriber.disposable = s.subscriber.disposable)
    (hcount : ∀ i d, s'.disposals.count (.held i d) = s.disposals.count (.held i d))
    (hdue : ∀ i, s'.Due i ∨ busy' = some i ↔ s.Due i ∨ busy = some i) : Tidy busy' s' where
  ok i sub hsub := by
    rw [hsubs] at hsub
    exact (h.ok i sub hsub).congr (by rw [hdisposable]) (by rw [hdisposable]) (hcount i)
      (hdue i).symm
  contents hclosed := by
    rw [hdisposable] at hclosed ⊢
    exact h.contents hclosed
  member_lt i hmem := by
    rw [hdisposable] at hmem
    rw [hsubs]
    exact h.member_lt i hmem
  held_lt i d hmem := by
    rw [hsubs]
    refine h.held_lt i d (List.count_pos_iff.mp ?_)
    rw [← hcount]
    exact List.count_pos_iff.mpr hmem
  due_lt i hdue' := by
    rw [hsubs, hdisposable]
    exact h.due_lt i ((hdue i).mp hdue')

/-- Disposals of what is held dispose of no subscription. -/
theorem due_append_held {l : List Ref} {subscriber : RACSubscriber}
    {subscriptions : List Subscription} {j : ℕ} : ({ s with
      subscriber := subscriber
      subscriptions := subscriptions
      disposals := s.disposals ++ l.map (.held i) } : Subscribing α).Due j ↔ s.Due j := by
  have hmem : Disposal.subscription j ∈ s.disposals ++ l.map (.held i) ↔
      .subscription j ∈ s.disposals := by simp
  exact or_congr hmem Iff.rfl

/-- **A locked section on the disposable of a subscription** keeps the invariant if it keeps
its entry. -/
theorem Tidy.locked (h : Tidy busy s) (hbusy : ∀ j, busy = some j → j = i)
    {body : Subscription → Subscription × List Ref}
    (hbody : ∀ sub, s.subscriptions[i]? = some sub →
      sub.Ok s.subscriber s.disposals (s.Due i ∨ busy = some i) i →
        (body sub).1.Ok s.subscriber (s.disposals ++ (body sub).2.map (.held i)) (s.Due i) i)
    (hs : s.locked i body = some s') : Tidy none s' := by
  obtain ⟨sub, hsub, hs⟩ := Option.bind_eq_some_iff.mp hs
  obtain rfl := Option.some.inj hs
  have hi : i < s.subscriptions.length := (List.getElem?_eq_some_iff.mp hsub).1
  refine ⟨fun j m hm => ?_, h.contents, fun j hj => ?_, fun j d hd => ?_, fun j hdue => ?_⟩
  · rcases getElem?_set_cases hm with ⟨rfl, rfl⟩ | ⟨hji, hm⟩
    · refine (hbody sub hsub (h.ok _ sub hsub)).congr rfl Iff.rfl (fun _ => rfl) ?_
      rw [due_append_held]
      simp
    · refine (h.ok j m hm).congr rfl Iff.rfl
        (Subscription.count_append_of_ne (Subscription.held_notMem_map hji _)) ?_
      have hother : busy ≠ some j := fun hj => hji (hbusy j hj)
      rw [due_append_held]
      simp [hother]
  · rw [List.length_set]
    exact h.member_lt j hj
  · rw [List.length_set]
    rcases List.mem_append.mp hd with hd | hd
    · exact h.held_lt j d hd
    · obtain ⟨x, -, heq⟩ := List.mem_map.mp hd
      rw [← (Disposal.held.inj heq).1]
      exact hi
  · rw [List.length_set]
    rcases hdue with hdue | hdue
    · exact h.due_lt j (Or.inl (due_append_held.mp hdue))
    · cases hdue

theorem Tidy.didSubscribeWithDisposable (h : Tidy none s) (hat : s.IsAt i .created)
    (hs : s.didSubscribeWithDisposable i = some s') : Tidy none s' := by
  obtain ⟨sub, hsub, hstage⟩ := Option.map_eq_some_iff.mp hat
  have hok := h.ok i sub hsub
  have hopen : sub.disposable.disposed = false := by
    by_contra hclosed
    exact (hok.is_closed (by simpa using hclosed)).2.1 hstage
  have hi : i < s.subscriptions.length := (List.getElem?_eq_some_iff.mp hsub).1
  obtain ⟨hreleased, hasked, hnone⟩ := hok.is_open hopen
  have hpurge : sub.added.count purge = 0 := by
    rw [hok.count_purge, hstage]
    rfl
  rw [Subscribing.didSubscribeWithDisposable, hsub, Option.bind_eq_bind, Option.bind_some,
    if_neg (by rw [hopen]; exact Bool.false_ne_true)] at hs
  cases hS : s.subscriber.disposable.disposed with
  | true =>
    simp only [RACCompoundDisposable.addDisposable_of_disposed hS, if_true] at hs
    obtain rfl := Option.some.inj hs
    have hcount : ∀ j d, (s.disposals ++ [Disposal.subscription i]).count (Disposal.held j d) =
        s.disposals.count (.held j d) := fun j d =>
      Subscription.count_append_of_ne (fun d => by simp) d
    refine ⟨fun j m hm => ?_, h.contents, fun j hj => ?_, fun j d hd => ?_, fun j hdue => ?_⟩
    · rcases getElem?_set_cases hm with ⟨rfl, rfl⟩ | ⟨hji, hm⟩
      · refine ⟨fun x => ?_, hpurge, fun _ => ⟨hreleased, hasked, fun x => ?_⟩, fun hclosed => ?_,
          fun hopen' => ?_, fun _ _ => ?_, fun _ h => by cases h⟩
        · exact (hok.count_eq x).trans (by rw [hcount])
        · exact (hcount _ x).trans (hnone x)
        · exact absurd (hopen.symm.trans hclosed) (by decide)
        · exact absurd (hS.symm.trans hopen') (by decide)
        · exact Or.inr (Or.inl (Or.inl (List.mem_append_right _ (List.mem_singleton_self _))))
      · refine (h.ok j m hm).congr rfl Iff.rfl (hcount j) (or_congr_left ?_)
        refine or_congr ?_ Iff.rfl
        simp [hji]
    · rw [List.length_set]
      exact h.member_lt j hj
    · rw [List.length_set]
      refine h.held_lt j d (List.count_pos_iff.mp ?_)
      rw [← hcount]
      exact List.count_pos_iff.mpr hd
    · rw [List.length_set]
      rcases hdue with (hdue | hdue) | hdue
      · rcases List.mem_append.mp hdue with hdue | hdue
        · exact h.due_lt j (Or.inl (Or.inl hdue))
        · obtain rfl := Disposal.subscription.inj (List.mem_singleton.mp hdue)
          exact ⟨hi, hS⟩
      · exact h.due_lt j (Or.inl (Or.inr hdue))
      · cases hdue
  | false =>
    obtain ⟨hshould, hopen', hperm⟩ := RACCompoundDisposable.addDisposable_spec hS (i + 1)
    simp only [hshould, Bool.false_eq_true, if_false, List.append_nil] at hs
    obtain rfl := Option.some.inj hs
    have hmem : ∀ j, j + 1 ∈ (s.subscriber.disposable.addDisposable (i + 1)).1.contents ↔
        j = i ∨ j + 1 ∈ s.subscriber.disposable.contents := by
      intro j
      rw [hperm.mem_iff, List.mem_cons, Nat.succ_inj]
    refine ⟨fun j m hm => ?_, fun hclosed => ?_, fun j hj => ?_, fun j d hd => ?_,
      fun j hdue => ?_⟩
    · rcases getElem?_set_cases hm with ⟨rfl, rfl⟩ | ⟨hji, hm⟩
      · refine ⟨hok.count_eq, hpurge, hok.is_open, fun hclosed => ?_, fun _ => ?_,
          fun hclosed => ?_, fun _ h => by cases h⟩
        · exact absurd (hopen.symm.trans hclosed) (by decide)
        · refine iff_of_true ((hmem j).mpr (Or.inl rfl)) ⟨fun h => (by cases h), ?_⟩
          show purge ∉ sub.released
          rw [hreleased]
          exact List.not_mem_nil
        · exact absurd (hopen'.symm.trans hclosed) (by decide)
      · refine (h.ok j m hm).congr (hopen'.trans hS.symm) ?_ (fun _ => rfl) Iff.rfl
        rw [hmem]
        exact or_iff_right hji
    · exact absurd (hopen'.symm.trans hclosed) (by decide)
    · rw [List.length_set]
      rcases (hmem j).mp hj with rfl | hj
      · exact hi
      · exact h.member_lt j hj
    · rw [List.length_set]
      exact h.held_lt j d hd
    · exact absurd ((h.due_lt j hdue).2.symm.trans hS) (by decide)

/-- What is held is disposed of: only the purge changes what the subscriber holds. -/
theorem disposeHeld_spec (h : s.subscriber.disposable.disposed = true →
    s.subscriber.disposable.contents = []) (i : ℕ) (d : Ref) :
    (s.disposeHeld i d).subscriptions = s.subscriptions ∧
      (s.disposeHeld i d).disposals = s.disposals ∧
      (∀ j, (s.disposeHeld i d).Due j ↔ s.Due j) ∧
      (s.subscriber.disposable.disposed = true →
        (s.disposeHeld i d).subscriber.disposable.contents = []) ∧
      ∀ j, j + 1 ∈ (s.disposeHeld i d).subscriber.disposable.contents ↔
        j + 1 ∈ s.subscriber.disposable.contents ∧ ¬(d = purge ∧ j = i) := by
  unfold Subscribing.disposeHeld
  split
  next hd =>
    refine ⟨rfl, rfl, fun j => Iff.rfl, fun hS => ?_, fun j => ?_⟩
    · show (s.subscriber.disposable.removeDisposable (i + 1)).contents = []
      rw [RACCompoundDisposable.removeDisposable_of_disposed hS, h hS]
    · show j + 1 ∈ (s.subscriber.disposable.removeDisposable (i + 1)).contents ↔ _
      cases hS : s.subscriber.disposable.disposed with
      | true => simp [RACCompoundDisposable.removeDisposable_of_disposed hS, h hS]
      | false => simp [(RACCompoundDisposable.removeDisposable_spec hS (i + 1)).2, hd]
  next hd =>
    split
    next => exact ⟨rfl, rfl, fun j => Iff.rfl, h, fun j => by simp [hd]⟩
    next => exact ⟨rfl, rfl, fun j => Iff.rfl, h, fun j => by simp [hd]⟩

/-- **Something that a subscription held is disposed of.** -/
theorem Tidy.performHeld {ds : List Disposal} (h : Tidy none s)
    (hperm : s.disposals.Perm (.held i d :: ds))
    (hs : ({ s with disposals := ds } : Subscribing α).perform (.held i d) = some s') :
    Tidy none s' := by
  have hspec := disposeHeld_spec (s := { s with disposals := ds }) h.contents i d
  have hspares := disposeHeld_spares ({ s with disposals := ds } : Subscribing α) i d
  rw [Subscribing.perform] at hs
  generalize ({ s with disposals := ds } : Subscribing α).disposeHeld i d = s₁
    at hs hspec hspares
  obtain ⟨hsubs, hds, hdue, hcontents', hmem⟩ := hspec
  have hdisposed : s₁.subscriber.disposable.disposed = s.subscriber.disposable.disposed :=
    hspares.disposed_eq
  have hcount : ∀ j x, s.disposals.count (.held j x) =
      s₁.disposals.count (.held j x) + if i = j ∧ d = x then 1 else 0 := by
    intro j x
    rw [hperm.count_eq, List.count_cons, hds]
    simp only [beq_iff_eq, Disposal.held.injEq]
  have hdue' : ∀ j, s₁.Due j ↔ s.Due j := by
    intro j
    rw [hdue]
    refine or_congr ?_ Iff.rfl
    rw [hperm.mem_iff]
    simp
  obtain ⟨sub, hsub, hs⟩ := Option.bind_eq_some_iff.mp hs
  obtain rfl := Option.some.inj hs
  rw [hsubs] at hsub
  have hok := h.ok i sub hsub
  have hi : i < s.subscriptions.length := (List.getElem?_eq_some_iff.mp hsub).1
  have hclosed : sub.disposable.disposed = true := by
    by_contra hopen
    have hnone := (hok.is_open (by simpa using hopen)).2.2 d
    rw [hcount, if_pos ⟨rfl, rfl⟩] at hnone
    omega
  have hlast : ∀ j x, (s₁.disposals ++ ([] : List Ref).map (Disposal.held i)).count (.held j x) =
      s₁.disposals.count (.held j x) := by
    intro j x
    rw [List.map_nil, List.append_nil]
  refine ⟨fun j m hm => ?_, fun hS => ?_, fun j hj => ?_, fun j x hx => ?_, fun j hj => ?_⟩
  · dsimp only at hm
    rw [hsubs] at hm
    rcases getElem?_set_cases hm with ⟨rfl, rfl⟩ | ⟨hji, hm⟩
    · obtain ⟨hcontents, hcreated, hwhy⟩ := hok.is_closed hclosed
      refine ⟨fun x => ?_, hok.count_purge, fun hopen => ?_, fun _ => ⟨hcontents, hcreated, ?_⟩,
        fun hopen => ?_, fun _ _ => Or.inl hclosed, fun _ => hcreated⟩
      · have hx := hok.count_eq x
        have hone : [d].count x = if d = x then 1 else 0 := by
          rw [List.count_singleton]
          simp only [beq_iff_eq]
        rw [hcount] at hx
        show sub.added.count x = sub.disposable.contents.count x + _ +
          (sub.released ++ [d]).count x
        rw [hlast, List.count_append, hone]
        simp only [true_and] at hx
        omega
      · exact absurd (hclosed.symm.trans hopen) (by decide)
      · rw [hdisposed]
        exact hwhy
      · rw [hmem]
        show _ ↔ sub.stage ≠ .created ∧ purge ∉ sub.released ++ [d]
        have hattached := hok.attached (hdisposed.symm.trans hopen)
        have hpurge : purge ∉ sub.released ++ [d] ↔ purge ∉ sub.released ∧ ¬d = purge := by
          simp [eq_comm]
        rw [hattached, hpurge]
        simp [and_assoc]
    · refine (h.ok j m hm).congr hdisposed ?_ (fun x => ?_) ?_
      · rw [hmem]
        simp [hji]
      · rw [hlast, hcount, if_neg (fun hj => hji hj.1.symm), Nat.add_zero]
      · rw [due_append_held, hdue']
  · exact hcontents' (hdisposed.symm.trans hS)
  · dsimp only
    rw [List.length_set, hsubs]
    exact h.member_lt j ((hmem j).mp hj).1
  · dsimp only
    rw [List.length_set, hsubs]
    have hpos : 0 < s₁.disposals.count (.held j x) := by
      rw [← hlast]
      exact List.count_pos_iff.mpr hx
    refine h.held_lt j x (List.count_pos_iff.mp ?_)
    rw [hcount]
    omega
  · dsimp only
    rw [List.length_set, hsubs, hdisposed]
    rcases hj with hj | hj
    · exact h.due_lt j (Or.inl ((hdue' j).mp (due_append_held.mp hj)))
    · cases hj

/-- **A terminal message** is about to dispose of all subscriptions. -/
theorem Tidy.enter_terminal (h : Tidy none s) {m : InFlight α}
    (hterminal : m.message.event.terminal = true) : Tidy none (s.enter m) := by
  rw [enter_of_terminal s hterminal]
  refine ⟨fun j sub hsub => ?_, fun _ => RACCompoundDisposable.contents_dispose _, fun j hj => ?_,
    h.held_lt, fun j hj => ?_⟩
  · have hok := h.ok j sub hsub
    refine ⟨hok.count_eq, hok.count_purge, hok.is_open, fun hclosed => ?_, fun hopen => ?_,
      fun _ hcreated => ?_, ?_⟩
    · obtain ⟨hcontents, hcreated, -⟩ := hok.is_closed hclosed
      exact ⟨hcontents, hcreated, Or.inr rfl⟩
    · cases hopen
    · cases hS : s.subscriber.disposable.disposed with
      | true =>
        refine (hok.ends hS hcreated).imp_right (Or.imp_left (Or.imp_right ?_))
        rintro ⟨f, hf, hrest⟩
        exact ⟨f, List.mem_cons_of_mem _ hf, hrest⟩
      | false =>
        cases hd : sub.disposable.disposed with
        | true => exact Or.inl rfl
        | false =>
          have hpurge : purge ∉ sub.released := by
            rw [(hok.is_open hd).1]
            exact List.not_mem_nil
          have hmem := (hok.attached hS).mpr ⟨hcreated, hpurge⟩
          exact Or.inr (Or.inl (Or.inr ⟨_, List.mem_cons_self, hmem⟩))
    · rintro ((hdue | ⟨f, hf, hrest⟩) | hnone)
      · exact hok.due_created (Or.inl (Or.inl hdue))
      · rcases List.mem_cons.mp hf with rfl | hf
        · have hmem : j + 1 ∈ s.subscriber.disposable.contents := hrest
          cases hS : s.subscriber.disposable.disposed with
          | true =>
            rw [h.contents hS] at hmem
            cases hmem
          | false => exact ((hok.attached hS).mp hmem).1
        · exact hok.due_created (Or.inl (Or.inr ⟨f, hf, hrest⟩))
      · cases hnone
  · dsimp only at hj
    rw [RACCompoundDisposable.contents_dispose] at hj
    cases hj
  · rcases hj with (hj | ⟨f, hf, hrest⟩) | hj
    · exact ⟨(h.due_lt j (Or.inl (Or.inl hj))).1, rfl⟩
    · rcases List.mem_cons.mp hf with rfl | hf
      · exact ⟨h.member_lt j hrest, rfl⟩
      · exact ⟨(h.due_lt j (Or.inl (Or.inr ⟨f, hf, hrest⟩))).1, rfl⟩
    · cases hj

theorem Tidy.enter (h : Tidy none s) (m : InFlight α) : Tidy none (s.enter m) := by
  cases hterminal : m.message.event.terminal with
  | true => exact h.enter_terminal hterminal
  | false =>
    cases hlistens : s.subscriber.listens m.message.event with
    | true =>
      rw [enter_of_listens hterminal hlistens]
      refine h.congr rfl rfl (fun _ _ => rfl) fun i => ?_
      simp [Subscribing.Due, Frame.rest]
    | false =>
      rw [enter_of_not_listens hterminal hlistens]
      exact h.congr rfl rfl (fun _ _ => rfl) fun i => Iff.rfl

/-- **The end of the subscriber** is about to dispose of the subscriptions that it holds. -/
theorem Tidy.dealloc (h : Tidy none s) : Tidy none s.dealloc := by
  have hnew : ∀ j, .subscription j ∈ s.dealloc.disposals ↔
      .subscription j ∈ s.disposals ∨ j + 1 ∈ s.subscriber.disposable.contents := by
    intro j
    show _ ∈ s.disposals ++ (s.subscriber.disposable.contents.filter _).map _ ↔ _
    rw [List.mem_append, List.mem_map]
    refine or_congr Iff.rfl ⟨?_, fun hj => ⟨j + 1, ?_, rfl⟩⟩
    · rintro ⟨d, hd, heq⟩
      obtain ⟨hd, hne⟩ := List.mem_filter.mp hd
      obtain rfl := Disposal.subscription.inj heq
      have hpos : d ≠ 0 := of_decide_eq_true hne
      rwa [Nat.sub_add_cancel (Nat.pos_of_ne_zero hpos)]
    · exact List.mem_filter.mpr ⟨hj, decide_eq_true (Nat.succ_ne_zero j)⟩
  have hcount : ∀ j d, s.dealloc.disposals.count (.held j d) = s.disposals.count (.held j d) :=
    fun j d => Subscription.count_append_of_ne (fun d hd => by
      obtain ⟨x, -, heq⟩ := List.mem_map.mp hd
      cases heq) d
  have hcontents : s.dealloc.subscriber.disposable.contents = [] :=
    RACCompoundDisposable.contents_dispose _
  have hdue : ∀ j, s.dealloc.Due j ↔ s.Due j ∨ j + 1 ∈ s.subscriber.disposable.contents := by
    intro j
    rw [Subscribing.Due, hnew]
    exact or_right_comm
  refine ⟨fun j sub hsub => ?_, fun _ => hcontents, fun j hj => ?_, fun j d hd => ?_,
    fun j hj => ?_⟩
  · have hok := h.ok j sub hsub
    refine ⟨fun d => ?_, hok.count_purge, fun hopen => ?_, fun hclosed => ?_, fun hopen => ?_,
      fun _ hcreated => ?_, ?_⟩
    · rw [hcount]
      exact hok.count_eq d
    · obtain ⟨hreleased, hasked, hnone⟩ := hok.is_open hopen
      exact ⟨hreleased, hasked, fun d => (hcount j d).trans (hnone d)⟩
    · obtain ⟨hheld, hcreated, -⟩ := hok.is_closed hclosed
      exact ⟨hheld, hcreated, Or.inr rfl⟩
    · cases hopen
    · rw [hdue]
      cases hS : s.subscriber.disposable.disposed with
      | true => exact (hok.ends hS hcreated).imp_right (Or.imp_left Or.inl)
      | false =>
        cases hd : sub.disposable.disposed with
        | true => exact Or.inl rfl
        | false =>
          have hpurge : purge ∉ sub.released := by
            rw [(hok.is_open hd).1]
            exact List.not_mem_nil
          exact Or.inr (Or.inl (Or.inr ((hok.attached hS).mpr ⟨hcreated, hpurge⟩)))
    · rw [hdue]
      rintro ((hdue | hmem) | hnone)
      · exact hok.due_created (Or.inl hdue)
      · cases hS : s.subscriber.disposable.disposed with
        | true =>
          rw [h.contents hS] at hmem
          cases hmem
        | false => exact ((hok.attached hS).mp hmem).1
      · cases hnone
  · rw [hcontents] at hj
    cases hj
  · refine h.held_lt j d (List.count_pos_iff.mp ?_)
    rw [← hcount]
    exact List.count_pos_iff.mpr hd
  · rw [hdue] at hj
    rcases hj with (hj | hj) | hj
    · exact ⟨(h.due_lt j (Or.inl hj)).1, rfl⟩
    · exact ⟨h.member_lt j hj, rfl⟩
    · cases hj

/-- **A step of a call that has the lock** keeps the invariant. -/
theorem Tidy.proceed (h : Tidy none s) (hs : s.proceed = some s') : Tidy none s' := by
  cases proceeds_of_proceed hs with
  | returned hf =>
    refine h.congr rfl rfl (fun _ _ => rfl) fun i => ?_
    simp [Subscribing.Due, hf, Frame.rest]
  | called hf =>
    refine h.congr rfl rfl (fun _ _ => rfl) fun i => ?_
    simp [Subscribing.Due, hf, Frame.rest]
  | ended hf =>
    refine h.congr rfl rfl (fun _ _ => rfl) fun i => ?_
    simp [Subscribing.Due, hf, Frame.rest]
  | cleared hf =>
    refine h.congr rfl rfl (fun _ _ => rfl) fun i => ?_
    simp [Subscribing.Due, hf, Frame.rest, selfDisposable]
  | @disposed m block i rest frames _ hf hs =>
    have hbusy : Tidy (some i) { s with frames := .disposing m block rest :: frames } := by
      refine h.congr rfl rfl (fun _ _ => rfl) fun j => ?_
      simp only [Subscribing.Due, hf, Frame.rest, List.mem_cons]
      grind
    refine hbusy.locked (fun j hj => (Option.some.inj hj).symm) (fun sub hsub hok => ?_) hs
    exact hok.dispose (hok.due_created (Or.inr rfl)) (Or.inr (hbusy.due_lt i (Or.inr rfl)).2)

/-- A new subscription is open. -/
theorem Tidy.subscribe (h : Tidy none s) :
    Tidy none { s with subscriptions := s.subscriptions ++ [.new] } := by
  have hlen : s.subscriptions.length ≤ (s.subscriptions ++ [Subscription.new]).length := by simp
  refine ⟨fun j sub hsub => ?_, h.contents, fun j hj => Nat.lt_of_lt_of_le (h.member_lt j hj) hlen,
    fun j d hd => Nat.lt_of_lt_of_le (h.held_lt j d hd) hlen, fun j hj => ?_⟩
  · rcases getElem?_append_cases hsub with hsub | ⟨rfl, rfl⟩
    · exact (h.ok j sub hsub).congr rfl Iff.rfl (fun _ => rfl) Iff.rfl
    · have hnone : ∀ d, s.disposals.count (.held s.subscriptions.length d) = 0 := fun d =>
        List.count_eq_zero_of_not_mem fun hd => Nat.lt_irrefl _ (h.held_lt _ d hd)
      refine ⟨fun d => (hnone d).symm.trans (Nat.zero_add _).symm, rfl,
        fun _ => ⟨rfl, rfl, hnone⟩, fun hclosed => (by cases hclosed), fun _ => ?_,
        fun _ hcreated => absurd rfl hcreated, fun hdue => ?_⟩
      · exact iff_of_false (fun hmem => Nat.lt_irrefl _ (h.member_lt _ hmem)) fun h => h.1 rfl
      · exact absurd (h.due_lt _ hdue).1 (Nat.lt_irrefl _)
  · obtain ⟨hlt, hS⟩ := h.due_lt j hj
    exact ⟨Nat.lt_of_lt_of_le hlt hlen, hS⟩

/-- A subscription is at the stage that it is at. -/
theorem isAt_iff (hsub : s.subscriptions[i]? = some sub) (stage : Stage) :
    s.IsAt i stage ↔ sub.stage = stage := by
  rw [Subscribing.IsAt, hsub, Option.map_some, Option.some.injEq]

/-- **A step of a call outside of the lock** keeps the invariant. -/
theorem Tidy.perform {k : ℕ} (h : Tidy none s) (hs : s.next (.step k) = some s') :
    Tidy none s' := by
  obtain ⟨disposal, hdisposal, hs⟩ := Option.bind_eq_some_iff.mp hs
  obtain ⟨hk, rfl⟩ := List.getElem?_eq_some_iff.mp hdisposal
  have hperm : s.disposals.Perm (s.disposals[k] :: s.disposals.eraseIdx k) :=
    (List.getElem_cons_eraseIdx_perm hk).symm
  generalize s.disposals[k] = disposal at hperm hs
  generalize s.disposals.eraseIdx k = ds at hperm hs
  cases disposal with
  | subscription i =>
    rw [Subscribing.perform] at hs
    have hbusy : Tidy (some i) { s with disposals := ds } := by
      refine h.congr rfl rfl (fun j d => ?_) fun j => ?_
      · rw [hperm.count_eq, List.count_cons_of_ne (fun heq => by cases heq)]
      · simp only [Subscribing.Due, hperm.mem_iff, List.mem_cons]
        grind
    refine hbusy.locked (fun j hj => (Option.some.inj hj).symm) (fun sub hsub hok => ?_) hs
    exact hok.dispose (hok.due_created (Or.inr rfl)) (Or.inr (hbusy.due_lt i (Or.inr rfl)).2)
  | held i d => exact h.performHeld hperm hs

/-- **Every step keeps the invariant.** -/
theorem Tidy.step (h : Tidy none s) (hok : s.AdditionsOk) (hen : s.Enabled e)
    (hs : s.next e = some s') : Tidy none s' := by
  have hidle : ∀ {i : ℕ} {sub : Subscription},
      sub.Ok s.subscriber s.disposals (s.Due i ∨ none = some i) i →
      sub.Ok s.subscriber s.disposals (s.Due i) i := fun hok =>
    hok.congr rfl Iff.rfl (fun _ => rfl) (by simp)
  cases e with
  | subscribe =>
    obtain rfl := Option.some.inj hs
    exact h.subscribe
  | didSubscribeWithDisposable i => exact h.didSubscribeWithDisposable hen hs
  | addPurge i =>
    rw [Subscribing.next] at hs
    refine h.locked (fun j hj => by cases hj) (fun sub hsub hok => ?_) hs
    have hstage := (isAt_iff hsub _).mp hen
    refine (hidle hok).addDisposable (fun h => ?_) (fun h => by cases h) ?_
    · rw [hstage] at h
      cases h
    · rw [List.count_append, hok.count_purge, hstage]
      rfl
  | returns i inner =>
    rw [Subscribing.next] at hs
    refine h.locked (fun j hj => by cases hj) (fun sub hsub hok => ?_) hs
    have hstage := (isAt_iff hsub _).mp hen
    cases inner with
    | true =>
      refine (hidle hok).addDisposable (fun h => ?_) (fun h => by cases h) ?_
      · rw [hstage] at h
        cases h
      · rw [List.count_append, hok.count_purge, hstage]
        rfl
    | false =>
      refine ((hidle hok).returned hstage).congr rfl Iff.rfl (fun d => ?_) Iff.rfl
      exact congrArg _ (List.append_nil _)
  | addDisposable i disposable =>
    obtain rfl := Option.some.inj hs
    cases disposable with
    | none => exact h
    | some d =>
      rw [Subscribing.addDisposable]
      split
      next => exact h
      next => exact h.congr rfl rfl (fun _ _ => rfl) fun i => Iff.rfl
  | lock k =>
    obtain ⟨⟨i, d⟩, hp, hs⟩ := Option.bind_eq_some_iff.mp hs
    obtain ⟨⟨sub, hsub, hcreated⟩, hpurge⟩ := hok _ (List.mem_of_getElem? hp)
    have h' : Tidy none { s with additions := s.additions.eraseIdx k } :=
      h.congr rfl rfl (fun _ _ => rfl) fun i => Iff.rfl
    refine h'.locked (fun j hj => by cases hj) (fun sub' hsub' hok => ?_) hs
    obtain rfl := Option.some.inj (hsub.symm.trans hsub')
    refine (hidle hok).addDisposable hcreated hcreated ?_
    rw [List.count_append, hok.count_purge,
      List.count_eq_zero_of_not_mem (fun h => hpurge (List.mem_singleton.mp h).symm), Nat.add_zero]
  | disposeOf d =>
    obtain rfl := Option.some.inj hs
    exact h.congr rfl rfl (fun _ _ => rfl) fun i => Iff.rfl
  | dispose i =>
    rw [Subscribing.next] at hs
    refine h.locked (fun j hj => by cases hj) (fun sub hsub hok => ?_) hs
    exact hok.dispose (fun hstage => hen ((isAt_iff hsub _).mpr hstage)) (Or.inl rfl)
  | send m =>
    rcases send_cases hs with ⟨rfl, -⟩ | ⟨rfl, -⟩
    · exact h
    · exact h.congr rfl rfl (fun _ _ => rfl) fun i => Iff.rfl
  | enter k =>
    obtain ⟨m, hm, hs⟩ := Option.bind_eq_some_iff.mp hs
    obtain rfl := Option.some.inj hs
    have h' : Tidy none { s with inFlight := s.inFlight.eraseIdx k } :=
      h.congr rfl rfl (fun _ _ => rfl) fun i => Iff.rfl
    exact h'.enter m
  | proceed => exact h.proceed hs
  | step k => exact h.perform hs
  | dealloc =>
    obtain rfl := Option.some.inj hs
    exact h.dealloc

theorem tidy_of_reachable (h : (subscribing α next error completed).Reachable s) :
    Tidy none s ∧ s.AdditionsOk := by
  refine h.invariant (I := fun s => Tidy none s ∧ s.AdditionsOk) ?_ ?_
  swap
  · rintro s e s' ⟨htidy, hadditions⟩ ⟨hen, hs⟩
    exact ⟨htidy.step hadditions hen hs, hadditions.step hen hs⟩
  refine ⟨?_, fun p hp => by cases hp⟩
  refine ⟨fun i sub hsub => (by cases hsub), fun hclosed => (by cases hclosed),
    fun i hi => ?_, fun i d hd => (by cases hd), ?_⟩
  · exact absurd (List.mem_singleton.mp hi) (Nat.succ_ne_zero i)
  · rintro i ((hdue | ⟨f, hf, -⟩) | hdue)
    · cases hdue
    · cases hf
    · cases hdue

/-! ### The end of a subscription -/

/-- What a subscription has done by itself once no call is under way. -/
theorem disposed_iff_of_quiet (h : (subscribing α next error completed).Reachable s)
    (hfree : s.frames = []) (hquiet : s.disposals = [])
    (hsub : s.subscriptions[i]? = some sub)
    (hstage : sub.stage = .started ∨ sub.stage = .returned) :
    (sub.disposable.disposed = true ↔
      sub.asked = true ∨ (∃ m ∈ s.entered, m.2.event.terminal = true) ∨
        s.deallocated = true) ∧
    (∀ d, sub.released.count d =
      if sub.disposable.disposed = true then sub.added.count d else 0) ∧
    (i + 1 ∈ s.subscriber.disposable.contents ↔ sub.disposable.disposed = false) := by
  have htidy := (tidy_of_reachable h).1
  have hok := htidy.ok i sub hsub
  have hcreated : sub.stage ≠ .created := by
    rintro hstage'
    rw [hstage'] at hstage
    rcases hstage with h | h
    · cases h
    · cases h
  have hidle : ¬(s.Due i ∨ none = some i) := by
    rintro ((hdue | ⟨f, hf, -⟩) | hdue)
    · rw [hquiet] at hdue
      cases hdue
    · rw [hfree] at hf
      cases hf
    · cases hdue
  have hcount : ∀ d, sub.added.count d =
      sub.disposable.contents.count d + sub.released.count d := by
    intro d
    rw [hok.count_eq, hquiet]
    rfl
  rw [← disposed_iff h]
  cases hd : sub.disposable.disposed with
  | true =>
    obtain ⟨hcontents, -, hwhy⟩ := hok.is_closed hd
    refine ⟨iff_of_true rfl hwhy, fun d => ?_, iff_of_false (fun hmem => ?_) (by decide)⟩
    · rw [if_pos rfl, hcount, hcontents]
      exact (Nat.zero_add _).symm
    · have hpurge : purge ∈ sub.released := by
        have hone := hok.count_purge
        rw [if_pos hstage, hcount, hcontents, List.count_nil, Nat.zero_add] at hone
        exact List.count_pos_iff.mp (by omega)
      cases hS : s.subscriber.disposable.disposed with
      | true =>
        rw [htidy.contents hS] at hmem
        cases hmem
      | false => exact ((hok.attached hS).mp hmem).2 hpurge
  | false =>
    obtain ⟨hreleased, hasked, -⟩ := hok.is_open hd
    have hS : s.subscriber.disposable.disposed = false := by
      by_contra hS
      rcases hok.ends (by simpa using hS) hcreated with hclosed | hdue
      · exact absurd (hd.symm.trans hclosed) (by decide)
      · exact hidle hdue
    refine ⟨iff_of_false (by decide) ?_, fun d => ?_, iff_of_true ?_ rfl⟩
    · rintro (hyes | hyes)
      · exact absurd (hasked.symm.trans hyes) (by decide)
      · exact absurd (hS.symm.trans hyes) (by decide)
    · rw [hreleased]
      rfl
    · rw [hok.attached hS, hreleased]
      exact ⟨hcreated, List.not_mem_nil⟩

/-- **Subscriptions end with all they hold**: once no call is under way, a subscription that
has begun has been disposed of exactly if somebody has disposed of it or its subscriber has
got a terminal message or is no more.  Then whatever was added to it has been disposed of once
for each time that it was, and its subscriber does not hold it any more; otherwise nothing of
this has happened.  What it has disposed of is known to be, apart from its own two, and what is
known to be disposed of is not added to it again in any run, unless that is under way. -/
theorem subscriptions_end (h : (subscribing α next error completed).Reachable s)
    (hfree : s.frames = []) (hquiet : s.disposals = [])
    (hsub : s.subscriptions[i]? = some sub)
    (hstage : sub.stage = .started ∨ sub.stage = .returned) :
    (sub.disposable.disposed = true ↔
      sub.asked = true ∨ (∃ m ∈ s.entered, m.2.event.terminal = true) ∨
        s.deallocated = true) ∧
    (∀ d, sub.released.count d =
      if sub.disposable.disposed = true then sub.added.count d else 0) ∧
    (i + 1 ∈ s.subscriber.disposable.contents ↔ sub.disposable.disposed = false) ∧
    (∀ d ∈ sub.released, d = purge ∨ d = innerDisposable ∨ d ∈ s.gone) ∧
    ∀ d ∈ s.gone, (i, d) ∉ s.additions → ∀ n s',
      (subscribing α next error completed).Steps (fun _ _ => True) s n s' →
        ∃ sub', s'.subscriptions[i]? = some sub' ∧ sub'.added.count d = sub.added.count d := by
  have hgone := goneOk_of_reachable h
  obtain ⟨hdisposed, hreleased, hheld⟩ := disposed_iff_of_quiet h hfree hquiet hsub hstage
  refine ⟨hdisposed, hreleased, hheld, fun d hd => or_assoc.mp (hgone.freed i sub hsub d hd), ?_⟩
  intro d hd hadditions n s' hsteps
  have hspent : s.IsSpent i d (sub.added.count d) := ⟨hd, hadditions, sub, hsub, rfl⟩
  exact (hspent.steps hgone hsteps).count_added

/-- The subscriber of a subscription is deallocated, and then something is added twice. -/
def lateAddition : List (SubscribingEvent ℕ) :=
  [.subscribe, .didSubscribeWithDisposable 0, .addPurge 0, .returns 0 false, .dealloc, .step 0,
    .step 0, .addDisposable 0 (some 5), .lock 0, .step 0, .addDisposable 0 (some 5)]

theorem subscriptions_end_lateAddition :
    ∃ s sub, (subscribing ℕ true false true).Reachable s ∧ s.subscriptions[0]? = some sub ∧
      s.additions = [] ∧ sub.released = [purge, 5] ∧ s.gone = [5] ∧
      (sub.disposable.disposed = true ↔
        sub.asked = true ∨ (∃ m ∈ s.entered, m.2.event.terminal = true) ∨
          s.deallocated = true) ∧
      (∀ d, sub.released.count d =
        if sub.disposable.disposed = true then sub.added.count d else 0) ∧
      (0 + 1 ∈ s.subscriber.disposable.contents ↔ sub.disposable.disposed = false) ∧
      (∀ d ∈ sub.released, d = purge ∨ d = innerDisposable ∨ d ∈ s.gone) ∧
      ∀ d ∈ s.gone, (0, d) ∉ s.additions → ∀ n s',
        (subscribing ℕ true false true).Steps (fun _ _ => True) s n s' →
          ∃ sub', s'.subscriptions[0]? = some sub' ∧
            sub'.added.count d = sub.added.count d := by
  have hrun : ∃ s, (subscribing ℕ true false true).Reachable s ∧ s.frames = [] ∧
      s.disposals = [] ∧ s.additions = [] ∧ s.gone = [5] ∧
      ∃ sub, s.subscriptions[0]? = some sub ∧ sub.stage = .returned ∧
        sub.released = [purge, 5] :=
    ⟨_, reachable_of_subscribingEvents lateAddition rfl, rfl, rfl, rfl, rfl, _, rfl, rfl, rfl⟩
  obtain ⟨s, hreach, hfree, hquiet, hadditions, hgone, sub, hsub, hstage, hreleased⟩ := hrun
  exact ⟨s, sub, hreach, hsub, hadditions, hreleased, hgone,
    subscriptions_end hreach hfree hquiet hsub (Or.inr hstage)⟩

end LANScan.ReactiveCocoa
