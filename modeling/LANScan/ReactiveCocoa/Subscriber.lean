import LANScan.Machine
import LANScan.Reactive.Heard
import LANScan.ReactiveCocoa.CompoundDisposable

/-!
# Subscribers across threads

A `RACSubscriber` may get messages from any number of threads, from signals it is subscribed
to through a `RACPassthroughSubscriber` and from others that send to it directly.  Its lock is
recursive: while one of its blocks runs, or the disposal at its end, the thread that holds
the lock may send to it again.  Here every call is a sequence of atomic steps, and every call
that has begun can make its next step, so a run is an arbitrary interleaving.

## Main definitions

* `RACSubscriber`, `Subscription` — a subscriber, and one subscription of it.
* `Subscribing` — a subscriber with its subscriptions and the calls under way.
* `subscribing` — the machine of all that can happen.

## Main results

* `reachable_of_subscribingEvents` — computed runs are runs.
* `subscriber_hears_stream` — **the blocks are called for the messages up to the first that
  is terminal**, which is what the streams here take a subscriber to hear.
-/

namespace LANScan.ReactiveCocoa

open Reactive

variable {α : Type}

/-! ### Subscribers -/

/-- What can be sent to a subscriber. -/
inductive Message (α : Type)
  | sendNext (value : Value α)
  | sendError
  | sendCompleted

/-- The event that a message brings. -/
def Message.event : Message α → Event α
  | sendNext value => .next value
  | sendError => .error
  | sendCompleted => .completed

/-- The disposable of a subscriber that takes its blocks away. -/
def selfDisposable : Ref := 0

/-- A subscriber: which of its blocks are there, and its disposable.  There the disposable
of its subscription `i` is `i + 1`. -/
structure RACSubscriber where
  next : Bool
  error : Bool
  completed : Bool
  disposable : RACCompoundDisposable
  deriving DecidableEq, Repr

namespace RACSubscriber

/-- A subscriber with the given blocks. -/
def subscriberWithNext (next error completed : Bool) : RACSubscriber where
  next := next
  error := error
  completed := completed
  disposable := ((RACCompoundDisposable.initWithDisposables []).addDisposable selfDisposable).1

/-- The block of `selfDisposable`. -/
def clear (s : RACSubscriber) : RACSubscriber :=
  { s with next := false, error := false, completed := false }

/-- There is a block for an event. -/
def listens (s : RACSubscriber) : Event α → Bool
  | .next _ => s.next
  | .error => s.error
  | .completed => s.completed
  | .crash _ => false

end RACSubscriber

/-! ### Subscriptions -/

/-- How far a subscription has come: made, known to its subscriber, with its subscription
block running, and with that block returned. -/
inductive Stage
  | created
  | attached
  | started
  | returned
  deriving DecidableEq, Repr

/-- The disposable that takes a subscription away from its subscriber.  Each subscription has
one of its own, and so it is with the next. -/
def purge : Ref := 0

/-- The disposable that a subscription block returns. -/
def innerDisposable : Ref := 1

/-- A subscription, with three things recorded: what has been added to its disposable, what it
has disposed of for each time that this was added, and whether it has been disposed of from
outside. -/
structure Subscription where
  disposable : RACCompoundDisposable
  stage : Stage
  added : List Ref
  released : List Ref
  asked : Bool
  deriving DecidableEq, Repr

namespace Subscription

/-- The subscription that `subscribe:` makes. -/
def new : Subscription := ⟨.initWithDisposables [], .created, [], [], false⟩

/-- The locked section of `addDisposable:` of the disposable, and what is disposed of after
it. -/
def addDisposable (d : Ref) (sub : Subscription) : Subscription × List Ref :=
  let (disposable, shouldDispose) := sub.disposable.addDisposable d
  ({ sub with disposable := disposable, added := sub.added ++ [d] },
    if shouldDispose then [d] else [])

/-- `dispose` of the disposable, and what is disposed of after it. -/
def dispose (sub : Subscription) : Subscription × List Ref :=
  let (disposable, disposed) := sub.disposable.dispose
  ({ sub with disposable := disposable }, disposed)

end Subscription

/-! ### Calls -/

/-- A call that holds the lock of the subscriber. -/
inductive Frame (α : Type)
  /-- One of the blocks is running. -/
  | running
  /-- A terminal message is on its way through what its `dispose` has taken out, and will
  call its block if there was one. -/
  | disposing (message : Message α) (block : Bool) (rest : List Ref)

/-- A call of `dispose` before its next step, outside of the lock. -/
inductive Disposal
  /-- To the disposable of a subscription. -/
  | subscription (i : ℕ)
  /-- To something that the disposable of a subscription held. -/
  | held (i : ℕ) (d : Ref)
  deriving DecidableEq, Repr

/-- A message that has not come to the lock yet. -/
structure InFlight (α : Type) where
  thread : ℕ
  /-- The subscription that it was sent through, if any. -/
  via : Option ℕ
  message : Message α

/-- A subscriber with its subscriptions and the calls under way, the messages that came to the
lock and that its blocks were called for, the other disposables that have been disposed of, and
whether the subscriber has been deallocated. -/
structure Subscribing (α : Type) where
  subscriber : RACSubscriber
  subscriptions : List Subscription
  /-- The thread that took the lock last. -/
  owner : ℕ
  /-- The calls that hold the lock, the innermost first. -/
  frames : List (Frame α)
  inFlight : List (InFlight α)
  disposals : List Disposal
  /-- The calls of `addDisposable:` that have not come to the lock of the disposable yet. -/
  additions : List (ℕ × Ref)
  entered : List (Option ℕ × Message α)
  heard : List (Message α)
  gone : List Ref
  deallocated : Bool

namespace Subscribing

/-- A locked section on the disposable of a subscription, and the calls after it. -/
def locked (s : Subscribing α) (i : ℕ) (body : Subscription → Subscription × List Ref) :
    Option (Subscribing α) := do
  let sub ← s.subscriptions[i]?
  let (sub, disposed) := body sub
  return { s with
    subscriptions := s.subscriptions.set i sub
    disposals := s.disposals ++ disposed.map (.held i) }

/-- `didSubscribeWithDisposable:`, up to the disposable that it adds to the subscription. -/
def didSubscribeWithDisposable (s : Subscribing α) (i : ℕ) : Option (Subscribing α) := do
  let sub ← s.subscriptions[i]?
  if sub.disposable.disposed then
    return { s with subscriptions := s.subscriptions.set i { sub with stage := .started } }
  else
    -- nobody else has the disposable yet, so it passes the check of `addDisposable:` too
    let (disposable, shouldDispose) := s.subscriber.disposable.addDisposable (i + 1)
    return { s with
      subscriber := { s.subscriber with disposable := disposable }
      subscriptions := s.subscriptions.set i { sub with stage := .attached }
      disposals := s.disposals ++ if shouldDispose then [.subscription i] else [] }

/-- `dealloc` disposes of what the subscriber still holds: of `selfDisposable`, which comes first,
and of its subscriptions. -/
def dealloc (s : Subscribing α) : Subscribing α :=
  let (disposable, disposed) := s.subscriber.disposable.dispose
  let subscriber := if selfDisposable ∈ disposed then s.subscriber.clear else s.subscriber
  { s with
    subscriber := { subscriber with disposable := disposable }
    disposals := s.disposals ++
      (disposed.filter (· ≠ selfDisposable)).map fun d => .subscription (d - 1)
    deallocated := true }

/-- `addDisposable:` of the disposable of a subscription, up to its lock: nil and what has been
disposed of are not added. -/
def addDisposable (s : Subscribing α) (i : ℕ) : Option Ref → Subscribing α
  | none => s
  | some d => if d ∈ s.gone then s else { s with additions := s.additions ++ [(i, d)] }

/-- A message to the passthrough subscriber of a subscription, or to the subscriber. -/
def send (s : Subscribing α) (m : InFlight α) : Option (Subscribing α) :=
  match m.via with
  | none => some { s with inFlight := s.inFlight ++ [m] }
  | some i => do
    let sub ← s.subscriptions[i]?
    if sub.disposable.disposed then return s
    else return { s with inFlight := s.inFlight ++ [m] }

/-- A message comes to the lock. -/
def enter (s : Subscribing α) (m : InFlight α) : Subscribing α :=
  let s := { s with owner := m.thread, entered := s.entered ++ [(m.via, m.message)] }
  let block := s.subscriber.listens m.message.event
  match m.message with
  | .sendNext _ =>
    if block then { s with heard := s.heard ++ [m.message], frames := .running :: s.frames }
    else s
  | _ =>
    let (disposable, disposed) := s.subscriber.disposable.dispose
    { s with
      subscriber := { s.subscriber with disposable := disposable }
      frames := .disposing m.message block disposed :: s.frames }

/-- The next step of the call that took the lock last. -/
def proceed (s : Subscribing α) : Option (Subscribing α) :=
  match s.frames with
  | [] => none
  | .running :: frames => some { s with frames := frames }
  | .disposing m block [] :: frames =>
    if block then some { s with heard := s.heard ++ [m], frames := .running :: frames }
    else some { s with frames := frames }
  | .disposing m block (0 :: rest) :: frames =>
    some { s with subscriber := s.subscriber.clear, frames := .disposing m block rest :: frames }
  | .disposing m block ((i + 1) :: rest) :: frames =>
    { s with frames := .disposing m block rest :: frames }.locked i Subscription.dispose

/-- What the disposable of a subscription held is disposed of. -/
def disposeHeld (s : Subscribing α) (i : ℕ) (d : Ref) : Subscribing α :=
  if d = purge then
    { s with subscriber :=
      { s.subscriber with disposable := s.subscriber.disposable.removeDisposable (i + 1) } }
  else if d = innerDisposable then s
  else { s with gone := s.gone ++ [d] }

/-- The next step of a call outside of the lock. -/
def perform (s : Subscribing α) : Disposal → Option (Subscribing α)
  | .subscription i => s.locked i Subscription.dispose
  | .held i d => (s.disposeHeld i d).locked i fun sub =>
    ({ sub with released := sub.released ++ [d] }, [])

end Subscribing

/-! ### The machine -/

/-- What can happen. -/
inductive SubscribingEvent (α : Type)
  /-- `subscribe:` makes a disposable. -/
  | subscribe
  | didSubscribeWithDisposable (i : ℕ)
  /-- The subscription gets its purge, and its block starts. -/
  | addPurge (i : ℕ)
  /-- The subscription block returns, with a disposable that is not disposed of or without
  one. -/
  | returns (i : ℕ) (inner : Bool)
  /-- Somebody adds anything else, or nil, to the disposable of a subscription. -/
  | addDisposable (i : ℕ) (disposable : Option Ref)
  /-- The call of `addDisposable:` gets the lock of the disposable. -/
  | lock (k : ℕ)
  /-- Somebody disposes of something that may be added. -/
  | disposeOf (d : Ref)
  /-- Somebody disposes of a subscription. -/
  | dispose (i : ℕ)
  | send (m : InFlight α)
  /-- A message in flight gets the lock. -/
  | enter (k : ℕ)
  | proceed
  | step (k : ℕ)
  /-- Nobody holds the subscriber any more. -/
  | dealloc

namespace Subscribing

/-- The thread can take the lock: it is free, or the thread has it and runs code that is not
the subscriber's. -/
def CanEnter (s : Subscribing α) (thread : ℕ) : Prop :=
  match s.frames with
  | [] => True
  | .running :: _ => s.owner = thread
  | .disposing _ _ rest :: _ => s.owner = thread ∧ rest.head? ≠ some selfDisposable

instance (s : Subscribing α) (thread : ℕ) : Decidable (s.CanEnter thread) := by
  unfold CanEnter
  split <;> infer_instance

/-- A subscription is at the given stage. -/
def IsAt (s : Subscribing α) (i : ℕ) (stage : Stage) : Prop :=
  s.subscriptions[i]?.map Subscription.stage = some stage

instance (s : Subscribing α) (i : ℕ) (stage : Stage) : Decidable (s.IsAt i stage) :=
  inferInstanceAs (Decidable (_ = _))

/-- What an event does. -/
def next (s : Subscribing α) : SubscribingEvent α → Option (Subscribing α)
  | .subscribe => some { s with subscriptions := s.subscriptions ++ [.new] }
  | .didSubscribeWithDisposable i => s.didSubscribeWithDisposable i
  | .addPurge i => s.locked i fun sub => { sub with stage := .started }.addDisposable purge
  | .returns i inner => s.locked i fun sub =>
    if inner then { sub with stage := .returned }.addDisposable innerDisposable
    else ({ sub with stage := .returned }, [])
  | .addDisposable i disposable => some (s.addDisposable i disposable)
  | .lock k => do
    let (i, d) ← s.additions[k]?
    { s with additions := s.additions.eraseIdx k }.locked i (Subscription.addDisposable d)
  | .disposeOf d => some { s with gone := s.gone ++ [d] }
  | .dispose i => s.locked i fun sub => { sub with asked := true }.dispose
  | .send m => s.send m
  | .enter k => do
    let m ← s.inFlight[k]?
    return { s with inFlight := s.inFlight.eraseIdx k }.enter m
  | .proceed => s.proceed
  | .step k => do
    let disposal ← s.disposals[k]?
    { s with disposals := s.disposals.eraseIdx k }.perform disposal
  | .dealloc => some s.dealloc

/-- What the callers see to: a subscription takes its steps in order, nobody has its
disposable or sends through it before it is attached, and its own disposables are not among
those that others add.  A subscriber is held by each call and each message to it and by
`subscribe:` until that returns. -/
def Enabled (s : Subscribing α) : SubscribingEvent α → Prop
  | .subscribe => s.deallocated = false
  | .didSubscribeWithDisposable i => s.IsAt i .created
  | .addPurge i => s.IsAt i .attached
  | .returns i _ => s.IsAt i .started
  | .addDisposable i disposable => i < s.subscriptions.length ∧ ¬s.IsAt i .created ∧
    ∀ d ∈ disposable, d ≠ purge ∧ d ≠ innerDisposable
  | .disposeOf d => d ≠ purge ∧ d ≠ innerDisposable
  | .dispose i => ¬s.IsAt i .created
  | .send m =>
    s.deallocated = false ∧ ∀ i ∈ m.via, s.IsAt i .started ∨ s.IsAt i .returned
  | .enter k => ∀ m ∈ s.inFlight[k]?, s.CanEnter m.thread
  | .dealloc => s.deallocated = false ∧ s.frames = [] ∧ s.inFlight = [] ∧
    ∀ sub ∈ s.subscriptions, sub.stage = .returned
  | _ => True

instance (s : Subscribing α) : (e : SubscribingEvent α) → Decidable (s.Enabled e)
  | .subscribe => inferInstanceAs (Decidable (_ = _))
  | .didSubscribeWithDisposable _ => inferInstanceAs (Decidable (s.IsAt _ _))
  | .addPurge _ => inferInstanceAs (Decidable (s.IsAt _ _))
  | .returns _ _ => inferInstanceAs (Decidable (s.IsAt _ _))
  | .addDisposable _ _ => inferInstanceAs (Decidable (_ ∧ _ ∧ ∀ _ ∈ _, _ ∧ _))
  | .lock _ => isTrue trivial
  | .disposeOf _ => inferInstanceAs (Decidable (_ ∧ _))
  | .dispose _ => inferInstanceAs (Decidable (¬_))
  | .send _ => inferInstanceAs (Decidable (_ ∧ ∀ _ ∈ _, _))
  | .enter _ => inferInstanceAs (Decidable (∀ m ∈ _, s.CanEnter (InFlight.thread m)))
  | .proceed => isTrue trivial
  | .step _ => isTrue trivial
  | .dealloc => inferInstanceAs (Decidable (_ ∧ _ = [] ∧ _ = [] ∧ ∀ _ ∈ _, _))

/-- A subscriber that is subscribed to nothing yet. -/
def new (next error completed : Bool) : Subscribing α where
  subscriber := .subscriberWithNext next error completed
  subscriptions := []
  owner := 0
  frames := []
  inFlight := []
  disposals := []
  additions := []
  entered := []
  heard := []
  gone := []
  deallocated := false

end Subscribing

/-- A subscriber with the given blocks, its subscriptions and the calls under way. -/
def subscribing (α : Type) (next error completed : Bool) :
    Machine (Subscribing α) (SubscribingEvent α) where
  init := .new next error completed
  Step s e s' := s.Enabled e ∧ s.next e = some s'

/-- A computed run. -/
theorem reachable_of_subscribingEvents {next error completed : Bool} {s : Subscribing α}
    (es : List (SubscribingEvent α))
    (h : es.foldlM (fun s e => if s.Enabled e then s.next e else none)
      (.new next error completed) = some s) :
    (subscribing α next error completed).Reachable s :=
  Machine.reachable_of_guarded (m := subscribing α next error completed)
    (fun _ _ _ hok hs => ⟨hok, hs⟩) es h

/-! ### What the lock guards -/

/-- The first slot of the disposable of a subscriber holds `selfDisposable`. -/
def RACCompoundDisposable.IsGuarded (c : RACCompoundDisposable) : Prop :=
  c.inlineDisposables.head? = some (some selfDisposable)

namespace RACCompoundDisposable

variable {c : RACCompoundDisposable}

/-- What is taken out of a guarded disposable begins with `selfDisposable`. -/
theorem IsGuarded.contents_eq (h : c.IsGuarded) : ∃ rest, c.contents = 0 :: rest := by
  obtain ⟨slots, hslots⟩ := List.head?_eq_some_iff.mp h
  refine ⟨slots.reduceOption ++ c.disposables.getD [], ?_⟩
  rw [contents, hslots, List.reduceOption_cons_of_some]
  rfl

theorem IsGuarded.addDisposable (h : c.IsGuarded) (d : Ref) : (c.addDisposable d).1.IsGuarded := by
  obtain ⟨slots, hslots⟩ := List.head?_eq_some_iff.mp h
  unfold RACCompoundDisposable.addDisposable
  split
  next => exact h
  next =>
    split
    next filled hfill =>
      rw [hslots] at hfill
      obtain ⟨_, -, rfl⟩ := Option.map_eq_some_iff.mp hfill
      rfl
    next => exact h

theorem IsGuarded.removeDisposable (h : c.IsGuarded) {d : Ref} (hd : selfDisposable ≠ d) :
    (c.removeDisposable d).IsGuarded := by
  obtain ⟨slots, hslots⟩ := List.head?_eq_some_iff.mp h
  unfold RACCompoundDisposable.removeDisposable
  split
  next => exact h
  next =>
    show (List.map _ c.inlineDisposables).head? = _
    rw [hslots, List.map_cons, if_neg (fun heq => hd (Option.some.inj heq))]
    rfl

end RACCompoundDisposable

variable {next error completed : Bool} {b : Event α → Bool} {s s' : Subscribing α}
  {e : SubscribingEvent α}

/-- A step that leaves alone what the lock guards. -/
structure Spares (s s' : Subscribing α) : Prop where
  frames_eq : s'.frames = s.frames
  inFlight_eq : s'.inFlight = s.inFlight
  deallocated_eq : s'.deallocated = s.deallocated
  entered_eq : s'.entered = s.entered
  heard_eq : s'.heard = s.heard
  listens_eq : ∀ e : Event α, s'.subscriber.listens e = s.subscriber.listens e
  disposed_eq : s'.subscriber.disposable.disposed = s.subscriber.disposable.disposed
  isGuarded : s.subscriber.disposable.IsGuarded → s'.subscriber.disposable.IsGuarded

/-- A locked section on the disposable of a subscription spares the subscriber. -/
theorem locked_spares {i : ℕ} {body : Subscription → Subscription × List Ref}
    (h : s.locked i body = some s') : Spares s s' := by
  obtain ⟨sub, hsub, h⟩ := Option.bind_eq_some_iff.mp h
  obtain rfl := Option.some.inj h
  exact ⟨rfl, rfl, rfl, rfl, rfl, fun _ => rfl, rfl, id⟩

theorem didSubscribeWithDisposable_spares {i : ℕ}
    (h : s.didSubscribeWithDisposable i = some s') : Spares s s' := by
  obtain ⟨sub, hsub, h⟩ := Option.bind_eq_some_iff.mp h
  split at h
  next =>
    obtain rfl := Option.some.inj h
    exact ⟨rfl, rfl, rfl, rfl, rfl, fun _ => rfl, rfl, id⟩
  next =>
    obtain rfl := Option.some.inj h
    exact ⟨rfl, rfl, rfl, rfl, rfl, fun e => (by cases e <;> rfl),
      RACCompoundDisposable.disposed_addDisposable _ _, fun hg => hg.addDisposable _⟩

theorem disposeHeld_spares (s : Subscribing α) (i : ℕ) (d : Ref) :
    Spares s (s.disposeHeld i d) := by
  unfold Subscribing.disposeHeld
  split
  next =>
    exact ⟨rfl, rfl, rfl, rfl, rfl, fun e => (by cases e <;> rfl),
      RACCompoundDisposable.disposed_removeDisposable _ _, fun hg =>
        hg.removeDisposable (Nat.succ_ne_zero i).symm⟩
  next =>
    split
    next => exact ⟨rfl, rfl, rfl, rfl, rfl, fun _ => rfl, rfl, id⟩
    next => exact ⟨rfl, rfl, rfl, rfl, rfl, fun _ => rfl, rfl, id⟩

theorem addDisposable_spares (s : Subscribing α) (i : ℕ) (disposable : Option Ref) :
    Spares s (s.addDisposable i disposable) := by
  cases disposable with
  | none => exact ⟨rfl, rfl, rfl, rfl, rfl, fun _ => rfl, rfl, id⟩
  | some d =>
    rw [Subscribing.addDisposable]
    split
    next => exact ⟨rfl, rfl, rfl, rfl, rfl, fun _ => rfl, rfl, id⟩
    next => exact ⟨rfl, rfl, rfl, rfl, rfl, fun _ => rfl, rfl, id⟩

theorem Spares.trans {s₁ s₂ s₃ : Subscribing α} (h₁ : Spares s₁ s₂) (h₂ : Spares s₂ s₃) :
    Spares s₁ s₃ where
  frames_eq := h₂.frames_eq.trans h₁.frames_eq
  inFlight_eq := h₂.inFlight_eq.trans h₁.inFlight_eq
  deallocated_eq := h₂.deallocated_eq.trans h₁.deallocated_eq
  entered_eq := h₂.entered_eq.trans h₁.entered_eq
  heard_eq := h₂.heard_eq.trans h₁.heard_eq
  listens_eq e := (h₂.listens_eq e).trans (h₁.listens_eq e)
  disposed_eq := h₂.disposed_eq.trans h₁.disposed_eq
  isGuarded hg := h₂.isGuarded (h₁.isGuarded hg)

theorem perform_spares {d : Disposal} (h : s.perform d = some s') : Spares s s' := by
  cases d with
  | subscription i =>
    rw [Subscribing.perform] at h
    exact locked_spares h
  | held i d =>
    rw [Subscribing.perform] at h
    exact (disposeHeld_spares s i d).trans (locked_spares h)

/-- The steps of the call that took the lock last: its block returns, its disposal ends with or
without a block to call, takes the blocks away, or goes on to a subscription. -/
inductive Proceeds (s : Subscribing α) : Subscribing α → Prop
  | returned {frames : List (Frame α)} (hf : s.frames = .running :: frames) :
    Proceeds s { s with frames := frames }
  | called {m : Message α} {frames : List (Frame α)}
    (hf : s.frames = .disposing m true [] :: frames) :
    Proceeds s { s with heard := s.heard ++ [m], frames := .running :: frames }
  | ended {m : Message α} {frames : List (Frame α)}
    (hf : s.frames = .disposing m false [] :: frames) :
    Proceeds s { s with frames := frames }
  | cleared {m : Message α} {block : Bool} {rest : List Ref} {frames : List (Frame α)}
    (hf : s.frames = .disposing m block (selfDisposable :: rest) :: frames) :
    Proceeds s
      { s with subscriber := s.subscriber.clear, frames := .disposing m block rest :: frames }
  | disposed {m : Message α} {block : Bool} {i : ℕ} {rest : List Ref} {frames : List (Frame α)}
    {t : Subscribing α} (hf : s.frames = .disposing m block ((i + 1) :: rest) :: frames)
    (hs : ({ s with frames := .disposing m block rest :: frames } : Subscribing α).locked i
      Subscription.dispose = some t) :
    Proceeds s t

theorem proceeds_of_proceed (hs : s.proceed = some s') : Proceeds s s' := by
  cases hf : s.frames with
  | nil =>
    rw [Subscribing.proceed, hf] at hs
    cases hs
  | cons f frames =>
    rw [Subscribing.proceed, hf] at hs
    cases f with
    | running =>
      obtain rfl := Option.some.inj hs
      exact .returned hf
    | disposing m block rest =>
      cases rest with
      | nil =>
        cases block with
        | true =>
          obtain rfl := Option.some.inj hs
          exact .called hf
        | false =>
          obtain rfl := Option.some.inj hs
          exact .ended hf
      | cons d rest =>
        cases d with
        | zero =>
          obtain rfl := Option.some.inj hs
          exact .cleared hf
        | succ i => exact .disposed hf hs

/-- The event is no message, no step of a call that has the lock, and not the end of the
subscriber. -/
def SubscribingEvent.IsOutside : SubscribingEvent α → Prop
  | .send _ => False
  | .enter _ => False
  | .proceed => False
  | .dealloc => False
  | _ => True

/-- **All else spares what the lock guards.** -/
theorem next_spares (hs : s.next e = some s') (he : e.IsOutside) : Spares s s' := by
  cases e with
  | subscribe =>
    obtain rfl := Option.some.inj hs
    exact ⟨rfl, rfl, rfl, rfl, rfl, fun _ => rfl, rfl, id⟩
  | didSubscribeWithDisposable i => exact didSubscribeWithDisposable_spares hs
  | addPurge i =>
    rw [Subscribing.next] at hs
    exact locked_spares hs
  | returns i inner =>
    rw [Subscribing.next] at hs
    exact locked_spares hs
  | addDisposable i disposable =>
    obtain rfl := Option.some.inj hs
    exact addDisposable_spares s i disposable
  | lock k =>
    obtain ⟨⟨i, d⟩, -, hs⟩ := Option.bind_eq_some_iff.mp hs
    obtain ⟨h₁, h₂, h₃, h₄, h₅, h₆, h₇, h₈⟩ := locked_spares hs
    exact ⟨h₁, h₂, h₃, h₄, h₅, h₆, h₇, h₈⟩
  | disposeOf d =>
    obtain rfl := Option.some.inj hs
    exact ⟨rfl, rfl, rfl, rfl, rfl, fun _ => rfl, rfl, id⟩
  | dispose i =>
    rw [Subscribing.next] at hs
    exact locked_spares hs
  | send m => exact he.elim
  | enter k => exact he.elim
  | proceed => exact he.elim
  | dealloc => exact he.elim
  | step k =>
    obtain ⟨d, -, hs⟩ := Option.bind_eq_some_iff.mp hs
    obtain ⟨h₁, h₂, h₃, h₄, h₅, h₆, h₇, h₈⟩ := perform_spares hs
    exact ⟨h₁, h₂, h₃, h₄, h₅, h₆, h₇, h₈⟩

/-! ### What is heard -/

/-- One more event is heard while none before it is terminal. -/
theorem heard_concat {e : Event α} (he : e.isCrash = false) (es : List (Event α))
    (isOpen : Bool) : heard isOpen (es ++ [e]) =
      heard isOpen es ++ if stillOpen isOpen es then [e] else [] := by
  rw [heard_append]
  cases stillOpen isOpen es with
  | true => rfl
  | false => rw [heard, he, heard]

/-- The calls of blocks that the calls with the lock still owe. -/
def Frame.owed : Frame α → List (Event α)
  | .running => []
  | .disposing m block _ => if block then [m.event] else []

namespace Subscribing

/-- The events that came to the lock. -/
def events (s : Subscribing α) : List (Event α) := s.entered.map fun p => p.2.event

/-- The events that the blocks were called for. -/
def heardEvents (s : Subscribing α) : List (Event α) := s.heard.map Message.event

/-- The calls of blocks that are still to come. -/
def owed (s : Subscribing α) : List (Event α) := s.frames.flatMap Frame.owed

end Subscribing

/-- A subscriber that hears what the stream brings: it listens, or it has begun to dispose
of itself but still has its blocks, or it has not, or it is no more. -/
inductive Hears (b : Event α → Bool) (s : Subscribing α) : Prop
  | listening (hframes : ∀ f ∈ s.frames, f = .running)
    (hlistens : ∀ e, s.subscriber.listens e = b e)
    (hguarded : s.subscriber.disposable.IsGuarded)
    (hdisposed : s.subscriber.disposable.disposed = false)
    (hlives : s.deallocated = false)
    (hopen : stillOpen true s.events = true)
    (hheard : s.heardEvents = (heard true s.events).filter b)
  | closing {m : Message α} {block : Bool} {rest : List Ref} {frames : List (Frame α)}
    (hframes : s.frames = .disposing m block (0 :: rest) :: frames)
    (hdisposed : s.subscriber.disposable.disposed = true)
    (hlives : s.deallocated = false)
    (hclosed : stillOpen true s.events = false)
    (hheard : s.heardEvents ++ s.owed = (heard true s.events).filter b)
  | closed (hlistens : ∀ e : Event α, s.subscriber.listens e = false)
    (hdisposed : s.subscriber.disposable.disposed = true)
    (hlives : s.deallocated = false)
    (hclosed : stillOpen true s.events = false)
    (hheard : s.heardEvents ++ s.owed = (heard true s.events).filter b)
  | deallocated (hframes : s.frames = []) (hinFlight : s.inFlight = [])
    (hdisposed : s.subscriber.disposable.disposed = true)
    (hdeallocated : s.deallocated = true)
    (hheard : s.heardEvents = (heard true s.events).filter b)

theorem Hears.spared (h : Hears b s) (hs : Spares s s') : Hears b s' := by
  obtain ⟨hframes', hinFlight', hdeallocated', hentered, hheard', hlistens', hdisposed',
    hguarded'⟩ := hs
  have hevents : s'.events = s.events := by rw [Subscribing.events, hentered, Subscribing.events]
  have hheardEvents : s'.heardEvents = s.heardEvents := by
    rw [Subscribing.heardEvents, hheard', Subscribing.heardEvents]
  have howed : s'.owed = s.owed := by rw [Subscribing.owed, hframes', Subscribing.owed]
  cases h with
  | listening hframes hlistens hguarded hdisposed hlives hopen hheard =>
    refine .listening (by rwa [hframes']) (fun e => (hlistens' e).trans (hlistens e))
      (hguarded' hguarded) (hdisposed'.trans hdisposed) (hdeallocated'.trans hlives)
      (by rwa [hevents]) ?_
    rwa [hevents, hheardEvents]
  | closing hframes hdisposed hlives hclosed hheard =>
    refine .closing (hframes'.trans hframes) (hdisposed'.trans hdisposed)
      (hdeallocated'.trans hlives) (by rwa [hevents]) ?_
    rwa [hevents, hheardEvents, howed]
  | closed hlistens hdisposed hlives hclosed hheard =>
    refine .closed (fun e => (hlistens' e).trans (hlistens e)) (hdisposed'.trans hdisposed)
      (hdeallocated'.trans hlives) (by rwa [hevents]) ?_
    rwa [hevents, hheardEvents, howed]
  | deallocated hframes hinFlight hdisposed hdeallocated hheard =>
    refine .deallocated (hframes'.trans hframes) (hinFlight'.trans hinFlight)
      (hdisposed'.trans hdisposed) (hdeallocated'.trans hdeallocated) ?_
    rwa [hevents, hheardEvents]

theorem Message.isCrash_event (m : Message α) : m.event.isCrash = false := by
  cases m <;> rfl

/-- Messages are not heard where nobody listens. -/
theorem heard_messages_false (ms : List (Message α)) :
    heard false (ms.map Message.event) = [] := by
  refine heard_false fun e he => ?_
  obtain ⟨m, -, rfl⟩ := List.mem_map.mp he
  exact m.isCrash_event

/-- A terminal message closes the stream, and another one leaves it as it was. -/
theorem stillOpen_concat (es : List (Event α)) (e : Event α) :
    stillOpen true (es ++ [e]) = (stillOpen true es && !e.terminal) := by
  simp [stillOpen, List.any_append]

/-- A message of a stream that is open is heard if there is a block for it. -/
theorem filter_heard_of_open {es : List (Event α)} (hopen : stillOpen true es = true)
    (m : Message α) : (heard true (es ++ [m.event])).filter b =
      (heard true es).filter b ++ if b m.event then [m.event] else [] := by
  rw [heard_concat m.isCrash_event, hopen, if_pos rfl, List.filter_append, List.filter_singleton]
  cases b m.event <;> rfl

/-- A message of a stream that has ended is not heard. -/
theorem heard_of_closed {es : List (Event α)} (hclosed : stillOpen true es = false)
    (m : Message α) : heard true (es ++ [m.event]) = heard true es := by
  rw [heard_concat m.isCrash_event, hclosed, if_neg Bool.false_ne_true, List.append_nil]

/-- A terminal message takes out what the subscriber holds, and remembers its block. -/
theorem enter_of_terminal (s : Subscribing α) {m : InFlight α}
    (hterminal : m.message.event.terminal = true) : s.enter m = { s with
      owner := m.thread
      entered := s.entered ++ [(m.via, m.message)]
      subscriber := { s.subscriber with disposable := s.subscriber.disposable.dispose.1 }
      frames := .disposing m.message (s.subscriber.listens m.message.event)
        s.subscriber.disposable.contents :: s.frames } := by
  obtain ⟨thread, via, message⟩ := m
  cases message with
  | sendNext v => cases hterminal
  | sendError => rfl
  | sendCompleted => rfl

/-- A value calls the block for it. -/
theorem enter_of_listens {m : InFlight α} (hterminal : m.message.event.terminal = false)
    (hlistens : s.subscriber.listens m.message.event = true) : s.enter m = { s with
      owner := m.thread
      entered := s.entered ++ [(m.via, m.message)]
      heard := s.heard ++ [m.message]
      frames := .running :: s.frames } := by
  obtain ⟨thread, via, message⟩ := m
  cases message with
  | sendNext v => exact if_pos hlistens
  | sendError => cases hterminal
  | sendCompleted => cases hterminal

/-- A value that there is no block for is forgotten. -/
theorem enter_of_not_listens {m : InFlight α} (hterminal : m.message.event.terminal = false)
    (hlistens : s.subscriber.listens m.message.event = false) : s.enter m = { s with
      owner := m.thread
      entered := s.entered ++ [(m.via, m.message)] } := by
  obtain ⟨thread, via, message⟩ := m
  cases message with
  | sendNext v => exact if_neg (fun h => absurd (h.symm.trans hlistens) (by decide))
  | sendError => cases hterminal
  | sendCompleted => cases hterminal

theorem events_concat {m : InFlight α} (hentered : s'.entered = s.entered ++ [(m.via, m.message)]) :
    s'.events = s.events ++ [m.message.event] := by
  rw [Subscribing.events, hentered, List.map_append]
  rfl

/-- **A terminal message** ends the stream. -/
theorem Hears.enter_terminal (h : Hears b s) (m : InFlight α) (hcan : s.CanEnter m.thread)
    (hlives : s.deallocated = false) (hterminal : m.message.event.terminal = true) :
    Hears b (s.enter m) := by
  have heq := enter_of_terminal s hterminal
  have hevents : (s.enter m).events = s.events ++ [m.message.event] :=
    events_concat (by rw [heq])
  have hclosed : stillOpen true (s.enter m).events = false := by
    rw [hevents, stillOpen_concat, hterminal, Bool.not_true, Bool.and_false]
  have hdisposed : (s.enter m).subscriber.disposable.disposed = true := by
    rw [heq]
    rfl
  have hlives' : (s.enter m).deallocated = false := by
    rw [heq]
    exact hlives
  have hheardEvents : (s.enter m).heardEvents = s.heardEvents := by
    rw [heq]
    rfl
  have howed : (s.enter m).owed =
      (if s.subscriber.listens m.message.event then [m.message.event] else []) ++ s.owed := by
    rw [heq]
    rfl
  cases h with
  | listening hframes hlistens hguarded hopen₁ _ hopen hheard =>
    obtain ⟨rest, hcontents⟩ := hguarded.contents_eq
    have hnone : s.owed = [] := by
      rw [Subscribing.owed, List.flatMap_eq_nil_iff]
      intro f hf
      rw [hframes f hf]
      rfl
    have hframes' : (s.enter m).frames =
        .disposing m.message (s.subscriber.listens m.message.event) (0 :: rest) :: s.frames := by
      rw [heq, hcontents]
    refine .closing hframes' hdisposed hlives' hclosed ?_
    rw [hevents, filter_heard_of_open hopen, hheardEvents, hheard, howed, hlistens, hnone,
      List.append_nil]
  | closing hframes =>
    rw [Subscribing.CanEnter, hframes] at hcan
    exact absurd rfl hcan.2
  | closed hlistens _ _ hclosed₁ hheard =>
    refine .closed (fun e => ?_) hdisposed hlives' hclosed ?_
    · rw [heq, ← hlistens e]
      cases e <;> rfl
    · rw [hevents, heard_of_closed hclosed₁, hheardEvents, howed, hlistens,
        if_neg Bool.false_ne_true, List.nil_append, hheard]
  | deallocated _ _ _ hdeallocated => exact absurd (hdeallocated.symm.trans hlives) (by decide)

/-- **A value** calls its block if there is one. -/
theorem Hears.enter_next (h : Hears b s) (m : InFlight α) (hcan : s.CanEnter m.thread)
    (hlives : s.deallocated = false) (hterminal : m.message.event.terminal = false) :
    Hears b (s.enter m) := by
  have hopen' : stillOpen true (s.events ++ [m.message.event]) = stillOpen true s.events := by
    rw [stillOpen_concat, hterminal]
    exact Bool.and_true _
  cases h with
  | listening hframes hlistens hguarded hdisposed _ hopen hheard =>
    have hfilter := filter_heard_of_open (b := b) hopen m.message
    cases hb : b m.message.event with
    | true =>
      rw [enter_of_listens hterminal ((hlistens _).trans hb)]
      rw [hb, if_pos rfl, ← hheard] at hfilter
      refine .listening (fun f hf => ?_) hlistens hguarded hdisposed hlives ?_ ?_
      · rcases List.mem_cons.mp hf with rfl | hf
        · rfl
        · exact hframes f hf
      · rw [events_concat rfl, hopen', hopen]
      · rw [events_concat rfl, hfilter]
        exact List.map_append
    | false =>
      rw [enter_of_not_listens hterminal ((hlistens _).trans hb)]
      rw [hb, if_neg Bool.false_ne_true, List.append_nil, ← hheard] at hfilter
      refine .listening hframes hlistens hguarded hdisposed hlives ?_ ?_
      · rw [events_concat rfl, hopen', hopen]
      · rw [events_concat rfl, hfilter]
        rfl
  | closing hframes =>
    rw [Subscribing.CanEnter, hframes] at hcan
    exact absurd rfl hcan.2
  | closed hlistens hdisposed _ hclosed hheard =>
    rw [enter_of_not_listens hterminal (hlistens _)]
    refine .closed hlistens hdisposed hlives ?_ ?_
    · rw [events_concat rfl, hopen', hclosed]
    · rw [events_concat rfl, heard_of_closed hclosed, ← hheard]
      rfl
  | deallocated _ _ _ hdeallocated => exact absurd (hdeallocated.symm.trans hlives) (by decide)

/-- A message that gets the lock keeps the subscriber hearing the stream. -/
theorem Hears.enter (h : Hears b s) (m : InFlight α) (hcan : s.CanEnter m.thread)
    (hlives : s.deallocated = false) : Hears b (s.enter m) := by
  cases hterminal : m.message.event.terminal with
  | true => exact h.enter_terminal m hcan hlives hterminal
  | false => exact h.enter_next m hcan hlives hterminal

/-- A step of a call that has the lock keeps the subscriber hearing the stream. -/
theorem Hears.proceed (h : Hears b s) (hs : s.proceed = some s') : Hears b s' := by
  cases h with
  | listening hframes hlistens hguarded hdisposed hlives hopen hheard =>
    have hrunning : ∀ {f frames}, s.frames = f :: frames →
        f = .running ∧ ∀ f ∈ frames, f = .running := by
      intro f frames hf
      rw [hf] at hframes
      exact List.forall_mem_cons.mp hframes
    cases proceeds_of_proceed hs with
    | returned hf =>
      exact .listening (hrunning hf).2 hlistens hguarded hdisposed hlives hopen hheard
    | called hf => cases (hrunning hf).1
    | ended hf => cases (hrunning hf).1
    | cleared hf => cases (hrunning hf).1
    | disposed hf => cases (hrunning hf).1
  | closing hframes hdisposed hlives hclosed hheard =>
    rw [Subscribing.owed, hframes] at hheard
    rw [Subscribing.proceed, hframes] at hs
    obtain rfl := Option.some.inj hs
    exact .closed (fun e => by cases e <;> rfl) hdisposed hlives hclosed hheard
  | closed hlistens hdisposed hlives hclosed hheard =>
    cases proceeds_of_proceed hs with
    | returned hf =>
      rw [Subscribing.owed, hf] at hheard
      exact .closed hlistens hdisposed hlives hclosed hheard
    | called hf =>
      rw [Subscribing.owed, hf] at hheard
      refine .closed hlistens hdisposed hlives hclosed ?_
      -- the block that was owed has been called
      rw [Subscribing.heardEvents, List.map_append, List.append_assoc]
      exact hheard
    | ended hf =>
      rw [Subscribing.owed, hf] at hheard
      exact .closed hlistens hdisposed hlives hclosed hheard
    | cleared hf =>
      rw [Subscribing.owed, hf] at hheard
      exact .closed (fun e => by cases e <;> rfl) hdisposed hlives hclosed hheard
    | @disposed m block i rest frames _ hf hs =>
      rw [Subscribing.owed, hf] at hheard
      have hbefore : Hears b { s with frames := .disposing m block rest :: frames } :=
        .closed hlistens hdisposed hlives hclosed hheard
      exact hbefore.spared (locked_spares hs)
  | deallocated hframes =>
    rw [Subscribing.proceed, hframes] at hs
    cases hs

/-- More or fewer messages in flight to a subscriber that there is. -/
theorem Hears.setInFlight (h : Hears b s) (hlives : s.deallocated = false)
    (inFlight : List (InFlight α)) : Hears b { s with inFlight := inFlight } := by
  cases h with
  | listening hframes hlistens hguarded hdisposed hlives hopen hheard =>
    exact .listening hframes hlistens hguarded hdisposed hlives hopen hheard
  | closing hframes hdisposed hlives hclosed hheard =>
    exact .closing hframes hdisposed hlives hclosed hheard
  | closed hlistens hdisposed hlives hclosed hheard =>
    exact .closed hlistens hdisposed hlives hclosed hheard
  | deallocated _ _ _ hdeallocated => exact absurd (hdeallocated.symm.trans hlives) (by decide)

/-- The disposable of a subscription has been disposed of. -/
def Subscribing.IsDisposed (s : Subscribing α) (i : ℕ) : Prop :=
  ∃ sub, s.subscriptions[i]? = some sub ∧ sub.disposable.disposed = true

/-- A message is sent, or dropped. -/
theorem send_cases {m : InFlight α} (hs : s.send m = some s') :
    (s' = s ∧ ∃ i, m.via = some i ∧ s.IsDisposed i) ∨
      s' = { s with inFlight := s.inFlight ++ [m] } ∧ ∀ i, m.via = some i → ¬s.IsDisposed i := by
  unfold Subscribing.send at hs
  split at hs
  next hvia =>
    refine Or.inr ⟨(Option.some.inj hs).symm, fun i hi => ?_⟩
    rw [hvia] at hi
    cases hi
  next i hvia =>
    obtain ⟨sub, hsub, hs⟩ := Option.bind_eq_some_iff.mp hs
    split at hs
    next hclosed => exact Or.inl ⟨(Option.some.inj hs).symm, i, hvia, sub, hsub, hclosed⟩
    next hopen =>
      refine Or.inr ⟨(Option.some.inj hs).symm, fun j hj hdisposed => hopen ?_⟩
      obtain rfl := Option.some.inj (hvia.symm.trans hj)
      obtain ⟨sub', hsub', hclosed⟩ := hdisposed
      obtain rfl := Option.some.inj (hsub.symm.trans hsub')
      exact hclosed

theorem Hears.send (h : Hears b s) (hlives : s.deallocated = false) {m : InFlight α}
    (hs : s.send m = some s') : Hears b s' := by
  rcases send_cases hs with ⟨rfl, -⟩ | ⟨rfl, -⟩
  · exact h
  · exact h.setInFlight hlives _

/-- There is a subscriber while a message to it is in flight. -/
theorem Hears.lives_of_inFlight (h : Hears b s) {k : ℕ} {m : InFlight α}
    (hm : s.inFlight[k]? = some m) : s.deallocated = false := by
  cases h with
  | listening _ _ _ _ hlives => exact hlives
  | closing _ _ hlives => exact hlives
  | closed _ _ hlives => exact hlives
  | deallocated _ hinFlight =>
    rw [hinFlight] at hm
    cases hm

/-- **The end of the subscriber** keeps what it has heard. -/
theorem Hears.dealloc (h : Hears b s) (hframes : s.frames = []) (hinFlight : s.inFlight = []) :
    Hears b s.dealloc := by
  refine .deallocated hframes hinFlight rfl rfl ?_
  show s.heardEvents = (heard true s.events).filter b
  cases h with
  | listening _ _ _ _ _ _ hheard => exact hheard
  | closing hframes' =>
    rw [hframes] at hframes'
    cases hframes'
  | closed _ _ _ _ hheard =>
    rw [Subscribing.owed, hframes] at hheard
    exact (List.append_nil _).symm.trans hheard
  | deallocated _ _ _ _ hheard => exact hheard

theorem Hears.step (h : Hears b s) (hen : s.Enabled e) (hs : s.next e = some s') :
    Hears b s' := by
  by_cases he : e.IsOutside
  · exact h.spared (next_spares hs he)
  · cases e with
    | enter k =>
      obtain ⟨m, hm, hs⟩ := Option.bind_eq_some_iff.mp hs
      obtain rfl := Option.some.inj hs
      have hlives := h.lives_of_inFlight hm
      exact (h.setInFlight hlives _).enter m (hen m hm) hlives
    | proceed => exact h.proceed hs
    | send m => exact h.send hen.1 hs
    | dealloc =>
      obtain rfl := Option.some.inj hs
      exact h.dealloc hen.2.1 hen.2.2.1
    | _ => exact absurd trivial he

theorem hears_of_reachable (h : (subscribing α next error completed).Reachable s) :
    Hears (RACSubscriber.subscriberWithNext next error completed).listens s := by
  refine h.invariant ?_ fun s e s' hi hs => hi.step hs.1 hs.2
  exact .listening (fun f hf => by cases hf) (fun e => rfl) rfl rfl rfl rfl rfl

/-- A subscriber has disposed of itself exactly if a terminal message has come to its lock or
it is no more. -/
theorem disposed_iff (h : (subscribing α next error completed).Reachable s) :
    s.subscriber.disposable.disposed = true ↔
      (∃ m ∈ s.entered, m.2.event.terminal = true) ∨ s.deallocated = true := by
  have hany : stillOpen true s.events = false ↔ ∃ m ∈ s.entered, m.2.event.terminal = true := by
    simp [stillOpen, Subscribing.events]
  rw [← hany]
  cases hears_of_reachable h with
  | listening _ _ _ hdisposed hlives hopen =>
    rw [hdisposed, hlives, hopen]
    decide
  | closing _ hdisposed _ hclosed => exact iff_of_true hdisposed (Or.inl hclosed)
  | closed _ hdisposed _ hclosed => exact iff_of_true hdisposed (Or.inl hclosed)
  | deallocated _ _ hdisposed hdeallocated => exact iff_of_true hdisposed (Or.inr hdeallocated)

/-- **A subscriber hears the stream that comes to its lock**, whatever other threads send and
dispose of, and whatever its blocks do: they have been called in order for messages up to the
first that is terminal, and none is left out once the lock is free. -/
theorem subscriber_hears_stream (h : (subscribing α next error completed).Reachable s) :
    (s.heard.map Message.event).IsPrefix
        ((heard true (s.entered.map fun p => p.2.event)).filter
          (RACSubscriber.subscriberWithNext next error completed).listens) ∧
      (s.frames = [] → s.heard.map Message.event =
        (heard true (s.entered.map fun p => p.2.event)).filter
          (RACSubscriber.subscriberWithNext next error completed).listens) := by
  have hall : ∀ owed, s.heardEvents ++ owed = (heard true s.events).filter
      (RACSubscriber.subscriberWithNext next error completed).listens →
        s.heardEvents.IsPrefix ((heard true s.events).filter
          (RACSubscriber.subscriberWithNext next error completed).listens) :=
    fun owed howed => ⟨owed, howed⟩
  cases hears_of_reachable h with
  | listening _ _ _ _ _ _ hheard =>
    exact ⟨hall [] ((List.append_nil _).trans hheard), fun _ => hheard⟩
  | closing hframes _ _ _ hheard =>
    refine ⟨hall _ hheard, fun hfree => ?_⟩
    rw [hfree] at hframes
    cases hframes
  | closed _ _ _ _ hheard =>
    refine ⟨hall _ hheard, fun hfree => ?_⟩
    rw [Subscribing.owed, hfree] at hheard
    exact (List.append_nil _).symm.trans hheard
  | deallocated _ _ _ _ hheard =>
    exact ⟨hall [] ((List.append_nil _).trans hheard), fun _ => hheard⟩

/-- Two subscriptions that send on a thread each.  The first completes the subscriber from
within the block for its value, while the value of the second waits for the lock. -/
def twoThreads : List (SubscribingEvent ℕ) :=
  [.subscribe, .didSubscribeWithDisposable 0, .addPurge 0,
    .subscribe, .didSubscribeWithDisposable 1, .addPurge 1,
    .send ⟨1, some 0, .sendNext (.obj 5)⟩, .send ⟨2, some 1, .sendNext (.obj 6)⟩, .enter 0,
    .send ⟨1, some 0, .sendCompleted⟩, .enter 1,
    .proceed, .proceed, .proceed, .proceed, .proceed, .proceed,
    .enter 0, .returns 0 true, .step 0, .step 0, .step 0]

theorem subscriber_hears_stream_twoThreads :
    ∃ s, (subscribing ℕ true false true).Reachable s ∧ s.entered.length = 3 ∧
      s.heard.map Message.event = [.next (.obj 5), .completed] ∧
      s.heard.map Message.event = (heard true (s.entered.map fun p => p.2.event)).filter
        (RACSubscriber.subscriberWithNext true false true).listens :=
  ⟨_, reachable_of_subscribingEvents twoThreads rfl, rfl, rfl,
    (subscriber_hears_stream (reachable_of_subscribingEvents twoThreads rfl)).2 rfl⟩

end LANScan.ReactiveCocoa
