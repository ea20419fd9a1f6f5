import LANScan.ReactiveCocoa.Bind

/-!
# The streams of `bind:`

The subscription block of `bind:` with the subscriptions that it makes: one to its source, and
one to each signal that a value of the source is mapped to.  These run as `Reactive.Step` has
it, and what the subscribers hear of them goes through the handlers.  One step of a
subscription sends its messages while nothing else happens.

## Main definitions

* `Bound`, `flattenMapping` — the subscriptions, and what the handlers got of them.

## Main results

* `bind_follows_streams` — **what the handlers send is what a `Reactive.Step` run sends**, as
  long as all signals differ.
-/

namespace LANScan.ReactiveCocoa

open Reactive

variable {Q : Type} {A : Q → Type} {α : Type}

/-! ### What the handlers get -/

/-- What the handlers get of the messages of the source, after `n` signals; the signal with
number `i` is the object `object i`. -/
def sourceEvents (object : ℕ → Ref) : ℕ → Bool → List (Message α) → List (BindEvent α)
  | _, _, [] => []
  | _, false, _ :: _ => []
  | n, true, .sendNext _ :: ms => .next (object n) false :: sourceEvents object (n + 1) true ms
  | _, true, .sendError :: _ => [.error]
  | _, true, .sendCompleted :: _ => [.completed]

/-- What the handlers get of the messages of the signal with number `i`. -/
def innerEvents (i : ℕ) : Bool → List (Message α) → List (BindEvent α)
  | _, [] => []
  | false, _ :: _ => []
  | true, m :: ms => .inner i m :: innerEvents i (!m.event.terminal) ms

/-- The subscriptions to the source and to the signals, each with whether its subscriber still
listens, and what the handlers got. -/
structure Bound (Q : Type) (A : Q → Type) (α : Type) where
  source : Sub Q A α
  isOpen : Bool
  inners : List (Sub Q A α × Bool)
  events : List (BindEvent α)

/-- A subscription makes a step.  Its messages are handled, unless the disposable of `bind:`
has been disposed of and takes them away. -/
inductive Bound.Moves (ans : (q : Q) → A q) (f : Value α → Signal Q A α) (object : ℕ → Ref)
    (source : Ref) (s : Bound Q A α) : Bound Q A α → Prop
  | source {x : Sub Q A α} {ms : List (Message α)}
    (h : Step ans s.source x (ms.map Message.event)) :
    Moves ans f object source s
      { source := x
        isOpen := stillOpen s.isOpen (ms.map Message.event)
        inners :=
          if (Bind.run source s.events).compoundDisposable.disposed then s.inners
          else s.inners ++ added f (heard s.isOpen (ms.map Message.event))
        events := s.events ++ sourceEvents object (signalsOf s.events).length s.isOpen ms }
  | inner (i : ℕ) {y y' : Sub Q A α} {isOpen : Bool} {ms : List (Message α)}
    (hi : s.inners[i]? = some (y, isOpen)) (h : Step ans y y' (ms.map Message.event)) :
    Moves ans f object source s
      { s with
        inners := s.inners.set i (y', stillOpen isOpen (ms.map Message.event))
        events := s.events ++ innerEvents i isOpen ms }
  | sourceDropped {x : Sub Q A α} {es : List (Event α)}
    (hdisposed : (Bind.run source s.events).compoundDisposable.disposed = true)
    (h : Step ans s.source x es) : Moves ans f object source s { s with source := x }
  | innerDropped (i : ℕ) {y y' : Sub Q A α} {isOpen : Bool} {es : List (Event α)}
    (hdisposed : (Bind.run source s.events).compoundDisposable.disposed = true)
    (hi : s.inners[i]? = some (y, isOpen)) (h : Step ans y y' es) :
    Moves ans f object source s { s with inners := s.inners.set i (y', isOpen) }

/-- The subscription block of `flattenMap:` at work. -/
def flattenMapping (ans : (q : Q) → A q) (signal : Signal Q A α) (f : Value α → Signal Q A α)
    (object : ℕ → Ref) (source : Ref) : Machine (Bound Q A α) Unit where
  init := ⟨.starting signal, true, [], []⟩
  Step s _ s' := s.Moves ans f object source s'

/-! ### The streams one by one -/

variable {ans : (q : Q) → A q} {signal : Signal Q A α} {f : Value α → Signal Q A α}
  {object : ℕ → Ref} {source : Ref} {s s' : Bound Q A α}

theorem allClosed_map (ys : List (Sub Q A α × Bool)) :
    Merge.allClosed (ys.map Prod.snd) = allClosed ys := List.all_map

/-- The messages of the source, handled as `Reactive.Step` has it. -/
theorem merge_sourceEvents : ∀ (ms : List (Message α)) (n : ℕ) (isOpen : Bool)
    (ys : List (Sub Q A α × Bool)) (sent : List (Event α)),
    (sourceEvents object n isOpen ms).foldl Merge.handle ⟨isOpen, ys.map Prod.snd, sent⟩ =
      ⟨stillOpen isOpen (ms.map Message.event),
        (ys ++ added f (heard isOpen (ms.map Message.event))).map Prod.snd,
        sent ++ (heard isOpen (ms.map Message.event)).flatMap
          (sourceOut (allClosed (ys ++ added f (heard isOpen (ms.map Message.event)))))⟩
  | [], n, isOpen, ys, sent => by
    simp [sourceEvents, heard, stillOpen, added]
  | m :: ms, n, false, ys, sent => by
    rw [heard_messages_false]
    simp [sourceEvents, stillOpen, added]
  | .sendNext v :: ms, n, true, ys, sent => by
    have hnext := merge_sourceEvents ms (n + 1) true (ys ++ [(.starting (f v), true)]) sent
    rw [List.map_append, List.append_assoc] at hnext
    rw [sourceEvents, List.foldl_cons]
    exact hnext
  -- a terminal message is the last one that is heard
  | .sendError :: ms, n, true, ys, sent => by
    have hheard : heard true ((.sendError :: ms).map Message.event) = [.error] := by
      rw [List.map_cons, heard]
      exact congrArg _ (heard_messages_false ms)
    rw [hheard]
    simp [sourceEvents, Merge.handle, stillOpen, added, sourceOut, Message.event, Event.terminal]
  | .sendCompleted :: ms, n, true, ys, sent => by
    have hheard : heard true ((.sendCompleted :: ms).map Message.event) = [.completed] := by
      rw [List.map_cons, heard]
      exact congrArg _ (heard_messages_false ms)
    rw [hheard]
    simp [sourceEvents, Merge.handle, stillOpen, added, allClosed_map, Message.event]

/-- A message of a signal that is listened to. -/
theorem merge_inner (isOpen : Bool) (ys zs : List (Sub Q A α × Bool)) (y : Sub Q A α)
    (m : Message α) (sent : List (Event α)) :
    (⟨isOpen, (ys ++ (y, true) :: zs).map Prod.snd, sent⟩ : Merge α).handle (.inner ys.length m) =
      ⟨isOpen, (ys ++ (y, !m.event.terminal) :: zs).map Prod.snd,
        sent ++ innerOut (!isOpen && allClosed (ys ++ zs)) m.event⟩ := by
  have hlast : Merge.allClosed (ys.map Prod.snd ++ false :: zs.map Prod.snd) =
      allClosed (ys ++ zs) := by
    simp [Merge.allClosed, allClosed, Function.comp_def]
  rw [← hlast]
  simp [Merge.handle]

/-- The messages of a signal, handled as `Reactive.Step` has it. -/
theorem merge_innerEvents (isOpen : Bool) (ys zs : List (Sub Q A α × Bool)) (y y' : Sub Q A α) :
    ∀ (ms : List (Message α)) (c : Bool) (sent : List (Event α)),
      (innerEvents ys.length c ms).foldl Merge.handle
          ⟨isOpen, (ys ++ (y, c) :: zs).map Prod.snd, sent⟩ =
        ⟨isOpen, (ys ++ (y', stillOpen c (ms.map Message.event)) :: zs).map Prod.snd,
          sent ++ (heard c (ms.map Message.event)).flatMap
            (innerOut (!isOpen && allClosed (ys ++ zs)))⟩
  | [], c, sent => by
    simp [innerEvents, heard, stillOpen]
  | m :: ms, false, sent => by
    rw [heard_messages_false]
    simp [innerEvents, stillOpen]
  | m :: ms, true, sent => by
    have hstill : stillOpen true ((m :: ms).map Message.event) =
        stillOpen (!m.event.terminal) (ms.map Message.event) := by
      simp [stillOpen]
    rw [innerEvents, List.foldl_cons, merge_inner, merge_innerEvents isOpen ys zs y y' ms,
      hstill, List.map_cons, heard, List.flatMap_cons, List.append_assoc]

/-! ### Runs -/

/-- The handlers have sent a terminal event, and before it what `out` has. -/
structure Bind.Closed (b : Bind α) (out : List (Event α)) : Prop where
  disposed_eq : b.compoundDisposable.disposed = true
  stillOpen_eq : stillOpen true b.sent = false
  heard_eq : heard true b.sent = heard true out

theorem Bind.Closed.foldl {out : List (Event α)} (source : Ref) : ∀ (es : List (BindEvent α))
    {b : Bind α}, b.Closed out → (es.foldl (Bind.handle source) b).Closed out
  | [], _, h => h
  | e :: es, b, h => by
    obtain ⟨ms, hsent⟩ := sent_handle source b e
    obtain ⟨hheard, hclosed⟩ := heard_append_of_closed h.stillOpen_eq ms
    refine Closed.foldl source es ⟨disposed_handle source h.disposed_eq e, ?_, ?_⟩
    · rw [hsent]
      exact hclosed
    · rw [hsent, hheard, h.heard_eq]

theorem run_append (source : Ref) (es es' : List (BindEvent α)) :
    Bind.run source (es ++ es') = es'.foldl (Bind.handle source) (Bind.run source es) :=
  List.foldl_append ..

/-- A run of the streams that sends what the handlers have sent, with the same subscriptions
as long as nothing has been disposed of. -/
inductive Bound.Follows (ans : (q : Q) → A q) (signal : Signal Q A α) (f : Value α → Signal Q A α)
    (source : Ref) (s : Bound Q A α) : Prop
  | running {out : List (Event α)} (hdisposed :
      (Bind.run source s.events).compoundDisposable.disposed = false)
    (hmerge : Merge.run s.events = ⟨s.isOpen, s.inners.map Prod.snd, out⟩)
    (hrun : Run ans (.starting (.flattenMap signal f)) (.binding f s.source s.isOpen s.inners) out)
  | closed {z : Sub Q A α} {out : List (Event α)} (hclosed : (Bind.run source s.events).Closed out)
    (hrun : Run ans (.starting (.flattenMap signal f)) z out)

/-- After more messages of the subscriptions, as long as nothing had been disposed of. -/
theorem Bound.follows_of_merge {x : Sub Q A α} {isOpen : Bool} {inners : List (Sub Q A α × Bool)}
    {es es' : List (BindEvent α)} {out : List (Event α)}
    (hnodup : (source :: signalsOf (es ++ es')).Nodup)
    (hmerge : es'.foldl Merge.handle (Merge.run es) = ⟨isOpen, inners.map Prod.snd, out⟩)
    (hrun : Run ans (.starting (.flattenMap signal f)) (.binding f x isOpen inners) out) :
    (⟨x, isOpen, inners, es ++ es'⟩ : Bound Q A α).Follows ans signal f source := by
  have hmerge' : Merge.run (es ++ es') = ⟨isOpen, inners.map Prod.snd, out⟩ := by
    rw [← hmerge]
    exact List.foldl_append ..
  rcases alike_or_ended source (es ++ es') hnodup with ⟨halike, -⟩ | hended
  · exact .running halike.disposed_eq hmerge' hrun
  · refine .closed ⟨hended.disposed_eq, hended.stillOpen_left, ?_⟩ hrun
    rw [hended.heard_eq, hmerge']

/-- **Every step of a subscription is one of the streams**, or comes after the end. -/
theorem Bound.Follows.moves (h : s.Follows ans signal f source)
    (hnodup : (source :: signalsOf s'.events).Nodup) (hs : s.Moves ans f object source s') :
    s'.Follows ans signal f source := by
  cases h with
  | running hdisposed hmerge hrun =>
    cases hs with
    | source h =>
      rw [hdisposed, if_neg Bool.false_ne_true]
      refine follows_of_merge hnodup ?_ (hrun.tail (.source h))
      rw [hmerge]
      exact merge_sourceEvents ..
    | @inner i y y' isOpen ms hi h =>
      obtain ⟨hlt, hget⟩ := List.getElem?_eq_some_iff.mp hi
      obtain ⟨ys, zs, heq, rfl, hset⟩ : ∃ ys zs, s.inners = ys ++ s.inners[i] :: zs ∧
          ys.length = i ∧ s.inners.set i (y', stillOpen isOpen (ms.map Message.event)) =
            ys ++ (y', stillOpen isOpen (ms.map Message.event)) :: zs := List.exists_of_set hlt
      rw [hget] at heq
      rw [hset]
      rw [heq] at hmerge hrun
      refine follows_of_merge hnodup ?_ (hrun.tail (.inner h))
      rw [hmerge]
      exact merge_innerEvents ..
    | sourceDropped hdropped => exact absurd (hdisposed.symm.trans hdropped) (by decide)
    | innerDropped i hdropped => exact absurd (hdisposed.symm.trans hdropped) (by decide)
  | closed hclosed hrun =>
    cases hs with
    | source =>
      refine .closed ?_ hrun
      rw [run_append]
      exact hclosed.foldl ..
    | inner =>
      refine .closed ?_ hrun
      rw [run_append]
      exact hclosed.foldl ..
    | sourceDropped => exact .closed hclosed hrun
    | innerDropped => exact .closed hclosed hrun

theorem Bound.Moves.events_eq (hs : s.Moves ans f object source s') :
    ∃ es, s'.events = s.events ++ es := by
  cases hs with
  | source => exact ⟨_, rfl⟩
  | inner => exact ⟨_, rfl⟩
  | sourceDropped => exact ⟨[], (List.append_nil _).symm⟩
  | innerDropped => exact ⟨[], (List.append_nil _).symm⟩

theorem follows_of_reachable (h : (flattenMapping ans signal f object source).Reachable s)
    (hnodup : (source :: signalsOf s.events).Nodup) : s.Follows ans signal f source := by
  refine h.invariant (I := fun s => (source :: signalsOf s.events).Nodup →
    s.Follows ans signal f source) ?_ ?_ hnodup
  · intro _
    exact .running rfl rfl (.single (.flattenMap signal f))
  · intro s e s' hi hs hnodup
    have hs : s.Moves ans f object source s' := hs
    refine (hi ?_).moves hnodup hs
    obtain ⟨es, hes⟩ := hs.events_eq
    rw [hes, signalsOf_append] at hnodup
    exact hnodup.sublist ((List.sublist_append_left ..).cons_cons source)

/-- **The handlers send what the streams send**: however the subscriptions take turns, if the
source and the signals are all different, the subscriber hears what it would hear in a run of
the `flattenMap`, one with the same subscriptions as long as nothing has been disposed of. -/
theorem bind_follows_streams (h : (flattenMapping ans signal f object source).Reachable s)
    (hnodup : (source :: signalsOf s.events).Nodup) :
    ∃ z out, Run ans (.starting (.flattenMap signal f)) z out ∧
      heard true (Bind.run source s.events).sent = heard true out ∧
      ((Bind.run source s.events).compoundDisposable.disposed = false →
        z = .binding f s.source s.isOpen s.inners) := by
  cases follows_of_reachable h hnodup with
  | @running out hdisposed hmerge hrun =>
    refine ⟨_, out, hrun, ?_, fun _ => rfl⟩
    rw [sent_eq_of_open hnodup hdisposed, hmerge]
  | closed hclosed hrun =>
    refine ⟨_, _, hrun, hclosed.heard_eq, fun hopen => ?_⟩
    exact absurd (hopen.symm.trans hclosed.disposed_eq) (by decide)

/-- A source of two values. -/
def twoValues : Signal Empty (fun _ => Empty) ℕ :=
  .just [.next (.obj 1), .next (.obj 2), .completed]

/-- Of the two signals that the values are mapped to, the second runs first. -/
theorem reachable_twoValues : ∃ s, (flattenMapping id twoValues .ret (· + 1) 0).Reachable s ∧
    (0 :: signalsOf s.events).Nodup ∧ heard true (Bind.run 0 s.events).sent =
      [.next (.obj 2), .next (.obj 1), .completed] := by
  have hsource : Step id (.starting twoValues) .idle
      ([.sendNext (.obj 1), .sendNext (.obj 2), .sendCompleted].map Message.event) := .just _
  have hfirst : Step id (.starting (.ret (.obj 1)) : Sub Empty (fun _ => Empty) ℕ) .idle
      ([.sendNext (.obj 1), .sendCompleted].map Message.event) := .just _
  have hsecond : Step id (.starting (.ret (.obj 2)) : Sub Empty (fun _ => Empty) ℕ) .idle
      ([.sendNext (.obj 2), .sendCompleted].map Message.event) := .just _
  exact ⟨_, ((Machine.Reachable.init.step (e := ()) (Bound.Moves.source hsource)).step (e := ())
    (Bound.Moves.inner 1 rfl hsecond)).step (e := ()) (Bound.Moves.inner 0 rfl hfirst),
    by decide, rfl⟩

theorem bind_follows_streams_twoValues : ∃ z out,
    Run id (.starting (.flattenMap twoValues .ret)) z out ∧
      heard true out = [.next (.obj 2), .next (.obj 1), .completed] := by
  obtain ⟨s, hreach, hnodup, hsent⟩ := reachable_twoValues
  obtain ⟨z, out, hrun, hheard, -⟩ := bind_follows_streams hreach hnodup
  exact ⟨z, out, hrun, hheard.symm.trans hsent⟩

end LANScan.ReactiveCocoa
