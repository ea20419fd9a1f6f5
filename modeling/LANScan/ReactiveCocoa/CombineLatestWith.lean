import LANScan.ReactiveCocoa.Upstream

/-!
# The handlers of `combineLatestWith:`

The subscription block of `combineLatestWith:` with its two subscriptions.  A step of a
subscription sends its messages one after another, from a thread of its own: between two of
them the other side may be handled.  Every handler is one step: it runs under the lock of the
disposable, or sends one message and touches nothing else.

## Main definitions

* `CombineLatest` — the variables of the block, `handleSelf` and `handleOther` its handlers.
* `combiningLatest` — the machine of both subscriptions and the handlers.

## Main results

* `combineLatest_follows_streams` — **the handlers send what a `Reactive.Step` run sends**, as
  long as each step of a subscription is handled before another is made.
* `combineLatest_delivers_outcome` — **and what every interleaving sends**, message by message,
  of two signals that have outcomes.
-/

namespace LANScan.ReactiveCocoa

open Reactive

variable {Q : Type} {A : Q → Type} {α : Type}

/-! ### The handlers -/

/-- The variables of the subscription block, and what was sent to the subscriber. -/
structure CombineLatest (α : Type) where
  lastSelfValue : Option (Value α)
  selfCompleted : Bool
  lastOtherValue : Option (Value α)
  otherCompleted : Bool
  sent : List (Event α)

namespace CombineLatest

/-- Before either side has sent anything. -/
def new : CombineLatest α := ⟨none, false, none, false, []⟩

/-- The block that sends the latest values, once both sides have one. -/
def sendNext (c : CombineLatest α) : CombineLatest α :=
  match c.lastSelfValue, c.lastOtherValue with
  | some v, some w => { c with sent := c.sent ++ [.next (pairUp v w)] }
  | _, _ => c

/-- The handlers of the subscription to the signal itself. -/
def handleSelf (c : CombineLatest α) : Message α → CombineLatest α
  | .sendNext x => { c with lastSelfValue := some x }.sendNext
  -- without the lock, and a side that fails does not count as completed
  | .sendError => { c with sent := c.sent ++ [.error] }
  | .sendCompleted =>
    let c := { c with selfCompleted := true }
    if c.otherCompleted then { c with sent := c.sent ++ [.completed] } else c

/-- The handlers of the subscription to the other signal. -/
def handleOther (c : CombineLatest α) : Message α → CombineLatest α
  | .sendNext x => { c with lastOtherValue := some x }.sendNext
  | .sendError => { c with sent := c.sent ++ [.error] }
  | .sendCompleted =>
    let c := { c with otherCompleted := true }
    if c.selfCompleted then { c with sent := c.sent ++ [.completed] } else c

end CombineLatest

/-! ### The subscriptions -/

/-- The two subscriptions, and the handlers. -/
structure Combining (Q : Type) (A : Q → Type) (α : Type) where
  self : Upstream Q A α
  other : Upstream Q A α
  handlers : CombineLatest α

/-- What can happen to them. -/
inductive CombiningEvent
  /-- A subscription makes a step. -/
  | sends
  /-- A message is handled. -/
  | handles
  /-- A message is dropped, since the subscriptions are disposed of. -/
  | drops

/-- What can happen.  When the subscriber gets a terminal event, the subscriptions are disposed
of, and some time after that their messages are dropped. -/
inductive Combining.Moves (ans : (q : Q) → A q) (s : Combining Q A α) :
    CombiningEvent → Combining Q A α → Prop
  | selfSends {u : Upstream Q A α} (h : s.self.Sends ans u) :
    Moves ans s .sends { s with self := u }
  | otherSends {u : Upstream Q A α} (h : s.other.Sends ans u) :
    Moves ans s .sends { s with other := u }
  | selfHandles {m : Message α} {u : Upstream Q A α} (h : s.self.Handles m u) :
    Moves ans s .handles { s with self := u, handlers := s.handlers.handleSelf m }
  | otherHandles {m : Message α} {u : Upstream Q A α} (h : s.other.Handles m u) :
    Moves ans s .handles { s with other := u, handlers := s.handlers.handleOther m }
  | selfDrops {m : Message α} {u : Upstream Q A α} (h : s.self.Handles m u)
    (hended : stillOpen true s.handlers.sent = false) : Moves ans s .drops { s with self := u }
  | otherDrops {m : Message α} {u : Upstream Q A α} (h : s.other.Handles m u)
    (hended : stillOpen true s.handlers.sent = false) : Moves ans s .drops { s with other := u }

/-- The subscription block of `combineLatestWith:` at work. -/
def combiningLatest (ans : (q : Q) → A q) (signal other : Signal Q A α) :
    Machine (Combining Q A α) CombiningEvent where
  init := ⟨.starting signal, .starting other, .new⟩
  Step s e s' := s.Moves ans e s'

/-! ### One message -/

variable {ans : (q : Q) → A q} {signal other : Signal Q A α} {s s' : Combining Q A α}
  {c : CombineLatest α} {e : CombiningEvent}

/-- **One message of the signal itself** is handled as `Reactive.Step` has it. -/
theorem handleSelf_eq (c : CombineLatest α) (m : Message α) :
    c.handleSelf m = { c with
      lastSelfValue := latest c.lastSelfValue [m.event]
      selfCompleted := c.selfCompleted || m.event.isCompleted
      sent := c.sent ++ sideOut pairUp c.lastOtherValue (!c.otherCompleted) m.event } := by
  obtain ⟨lv, lc, rv, rc, sent⟩ := c
  cases m with
  | sendNext x =>
    cases rv with
    | none =>
      simp [CombineLatest.handleSelf, CombineLatest.sendNext, Message.event, latest, sideOut]
    | some w =>
      simp [CombineLatest.handleSelf, CombineLatest.sendNext, Message.event, latest, sideOut]
  | sendError =>
    simp [CombineLatest.handleSelf, Message.event, latest, sideOut, Event.isCompleted]
  | sendCompleted =>
    cases rc with
    | false => simp [CombineLatest.handleSelf, Message.event, latest, sideOut]
    | true => simp [CombineLatest.handleSelf, Message.event, latest, sideOut]

/-- **One message of the other signal** is handled as `Reactive.Step` has it. -/
theorem handleOther_eq (c : CombineLatest α) (m : Message α) :
    c.handleOther m = { c with
      lastOtherValue := latest c.lastOtherValue [m.event]
      otherCompleted := c.otherCompleted || m.event.isCompleted
      sent := c.sent ++
        sideOut (fun v w => pairUp w v) c.lastSelfValue (!c.selfCompleted) m.event } := by
  obtain ⟨lv, lc, rv, rc, sent⟩ := c
  cases m with
  | sendNext x =>
    cases lv with
    | none =>
      simp [CombineLatest.handleOther, CombineLatest.sendNext, Message.event, latest, sideOut]
    | some w =>
      simp [CombineLatest.handleOther, CombineLatest.sendNext, Message.event, latest, sideOut]
  | sendError =>
    simp [CombineLatest.handleOther, Message.event, latest, sideOut, Event.isCompleted]
  | sendCompleted =>
    cases lc with
    | false => simp [CombineLatest.handleOther, Message.event, latest, sideOut]
    | true => simp [CombineLatest.handleOther, Message.event, latest, sideOut]

theorem latest_concat (v : Option (Value α)) (e : Event α) (es : List (Event α)) :
    latest (latest v [e]) es = latest v (e :: es) := by
  rw [← latest_append, List.singleton_append]

/-- Several messages of the signal itself. -/
theorem foldl_handleSelf : ∀ (ms : List (Message α)) (c : CombineLatest α),
    ms.foldl CombineLatest.handleSelf c = { c with
      lastSelfValue := latest c.lastSelfValue (ms.map Message.event)
      selfCompleted := c.selfCompleted || (ms.map Message.event).any Event.isCompleted
      sent := c.sent ++
        (ms.map Message.event).flatMap (sideOut pairUp c.lastOtherValue (!c.otherCompleted)) }
  | [], c => by simp [latest]
  | m :: ms, c => by
    rw [List.foldl_cons, handleSelf_eq, foldl_handleSelf ms]
    simp only [latest_concat, List.map_cons, List.any_cons, List.flatMap_cons, Bool.or_assoc,
      List.append_assoc]

/-- Several messages of the other signal. -/
theorem foldl_handleOther : ∀ (ms : List (Message α)) (c : CombineLatest α),
    ms.foldl CombineLatest.handleOther c = { c with
      lastOtherValue := latest c.lastOtherValue (ms.map Message.event)
      otherCompleted := c.otherCompleted || (ms.map Message.event).any Event.isCompleted
      sent := c.sent ++ (ms.map Message.event).flatMap
        (sideOut (fun v w => pairUp w v) c.lastSelfValue (!c.selfCompleted)) }
  | [], c => by simp [latest]
  | m :: ms, c => by
    rw [List.foldl_cons, handleOther_eq, foldl_handleOther ms]
    simp only [latest_concat, List.map_cons, List.any_cons, List.flatMap_cons, Bool.or_assoc,
      List.append_assoc]

/-! ### One step after another -/

/-- A subscription makes a step only when everything has been handled. -/
def OneByOne (s : Combining Q A α) (e : CombiningEvent) : Prop :=
  e = .sends → s.self.pending = [] ∧ s.other.pending = []

/-- The variables once everything that was sent is handled. -/
def Combining.drained (s : Combining Q A α) : CombineLatest α :=
  s.other.pending.foldl CombineLatest.handleOther
    (s.self.pending.foldl CombineLatest.handleSelf s.handlers)

/-- What a `combineLatestWith:` sends for a message. -/
theorem isCrash_sideOut {pack : Value α → Value α → Value α} {w : Option (Value α)} {b : Bool}
    {ms : List (Message α)} :
    ∀ e ∈ (ms.map Message.event).flatMap (sideOut pack w b), e.isCrash = false := by
  intro e he
  obtain ⟨e', he', he⟩ := List.mem_flatMap.mp he
  obtain ⟨m, -, rfl⟩ := List.mem_map.mp he'
  cases m with
  | sendNext x =>
    cases w with
    | none => cases he
    | some w =>
      obtain rfl := List.mem_singleton.mp he
      rfl
  | sendError =>
    obtain rfl := List.mem_singleton.mp he
    rfl
  | sendCompleted =>
    cases b with
    | false =>
      obtain rfl := List.mem_singleton.mp he
      rfl
    | true => cases he

/-- The subscriber has got a terminal event, and before it what `out` has. -/
structure CombineLatest.Closed (c : CombineLatest α) (out : List (Event α)) : Prop where
  stillOpen_eq : stillOpen true c.sent = false
  heard_eq : heard true c.sent = heard true out

theorem CombineLatest.Closed.append {out es : List (Event α)} {c' : CombineLatest α}
    (h : c.Closed out) (hsent : c'.sent = c.sent ++ es) (hes : ∀ e ∈ es, e.isCrash = false) :
    c'.Closed out := by
  refine ⟨?_, ?_⟩
  · rw [hsent, stillOpen_append, h.stillOpen_eq, stillOpen_false]
  · rw [hsent, heard_append, h.stillOpen_eq, heard_false hes, List.append_nil, h.heard_eq]

theorem CombineLatest.Closed.foldl_handleSelf {out : List (Event α)} (h : c.Closed out)
    (ms : List (Message α)) : (ms.foldl CombineLatest.handleSelf c).Closed out := by
  rw [ReactiveCocoa.foldl_handleSelf]
  exact h.append rfl isCrash_sideOut

theorem CombineLatest.Closed.foldl_handleOther {out : List (Event α)} (h : c.Closed out)
    (ms : List (Message α)) : (ms.foldl CombineLatest.handleOther c).Closed out := by
  rw [ReactiveCocoa.foldl_handleOther]
  exact h.append rfl isCrash_sideOut

theorem Combining.closed_drained {out : List (Event α)} (h : s.handlers.Closed out) :
    s.drained.Closed out :=
  (h.foldl_handleSelf s.self.pending).foldl_handleOther s.other.pending

/-- What was sent so far is sent first. -/
theorem sent_prefix_drained (s : Combining Q A α) : s.handlers.sent <+: s.drained.sent := by
  rw [Combining.drained, foldl_handleOther, foldl_handleSelf, List.append_assoc]
  exact List.prefix_append _ _

/-- A side has completed exactly if it was listened to and is not any more, unless it failed. -/
theorem completed_eq {isOpen : Bool} {ms : List (Message α)}
    (herror : Event.error ∉ heard isOpen (ms.map Message.event)) :
    (!isOpen || (heard isOpen (ms.map Message.event)).any Event.isCompleted) =
      !stillOpen isOpen (ms.map Message.event) := by
  cases isOpen with
  | false => rfl
  | true =>
    have hsame : ∀ e ∈ heard true (ms.map Message.event), e.isCompleted = e.terminal := by
      intro e he
      cases e with
      | next v => rfl
      | error => exact absurd he herror
      | completed => rfl
      | crash k => rfl
    have hany : ∀ es : List (Event α), (∀ e ∈ es, e.isCompleted = e.terminal) →
        es.any Event.isCompleted = es.any Event.terminal := by
      intro es hes
      rw [Bool.eq_iff_iff, List.any_eq_true, List.any_eq_true]
      exact exists_congr fun e => and_congr_right fun he => by rw [hes e he]
    rw [hany _ hsame, any_terminal_heard, stillOpen, Bool.not_true, Bool.false_or,
      Bool.true_and, Bool.not_not]

/-- An error is passed on. -/
theorem stillOpen_of_error {pack : Value α → Value α → Value α} {w : Option (Value α)} {b : Bool}
    {out es : List (Event α)} (herror : Event.error ∈ es) :
    stillOpen true (out ++ es.flatMap (sideOut pack w b)) = false := by
  have hmem : Event.error ∈ es.flatMap (sideOut pack w b) :=
    List.mem_flatMap.mpr ⟨.error, herror, List.mem_singleton_self _⟩
  have hany : (out ++ es.flatMap (sideOut pack w b)).any Event.terminal = true :=
    List.any_eq_true.mpr ⟨.error, List.mem_append_right _ hmem, rfl⟩
  rw [stillOpen, hany]
  rfl

/-- A run of the streams that sends what the handlers send, with the same subscriptions and
values as long as nothing has ended it. -/
inductive Combining.Follows (ans : (q : Q) → A q) (signal other : Signal Q A α)
    (s : Combining Q A α) : Prop
  | running {lv rv : Option (Value α)} {out : List (Event α)}
    (hdrained : s.drained = ⟨lv, !s.self.isOpen, rv, !s.other.isOpen, out⟩)
    (hrun : Run ans (.starting (.combineLatestWith signal other))
      (.combining s.self.sub s.self.isOpen lv s.other.sub s.other.isOpen rv) out)
  | closed {z : Sub Q A α} {out : List (Event α)} (hclosed : s.drained.Closed out)
    (hrun : Run ans (.starting (.combineLatestWith signal other)) z out)

theorem Combining.drained_of_nil (hself : s.self.pending = []) (hother : s.other.pending = []) :
    s.drained = s.handlers := by
  rw [drained, hself, hother]
  rfl

/-- A step of the subscription to the signal itself. -/
theorem Combining.Follows.selfSends (h : s.Follows ans signal other)
    (hself : s.self.pending = []) (hother : s.other.pending = []) {u : Upstream Q A α}
    (hu : s.self.Sends ans u) :
    ({ s with self := u } : Combining Q A α).Follows ans signal other := by
  cases hu with
  | @step x ms hstep =>
    have hdrained : Combining.drained { s with
        self := ⟨x, stillOpen s.self.isOpen (ms.map Message.event),
          s.self.pending ++ heardMessages s.self.isOpen ms⟩ } =
        (heardMessages s.self.isOpen ms).foldl CombineLatest.handleSelf s.drained := by
      rw [Combining.drained_of_nil hself hother, Combining.drained, hself, hother]
      rfl
    cases h with
    | @running lv rv out heq hrun =>
      rw [heq, foldl_handleSelf, map_heardMessages] at hdrained
      -- an error leaves `selfCompleted` as it was, but nothing after it is heard
      by_cases herror : Event.error ∈ heard s.self.isOpen (ms.map Message.event)
      · refine .closed ⟨?_, ?_⟩ (hrun.tail (.left hstep))
        · rw [hdrained]
          exact stillOpen_of_error herror
        · rw [hdrained, Bool.not_not]
      · refine .running ?_ (hrun.tail (.left hstep))
        rw [hdrained, completed_eq herror, Bool.not_not]
    | closed hclosed hrun =>
      refine .closed ?_ hrun
      rw [hdrained]
      exact hclosed.foldl_handleSelf _

/-- A step of the subscription to the other signal. -/
theorem Combining.Follows.otherSends (h : s.Follows ans signal other)
    (hself : s.self.pending = []) (hother : s.other.pending = []) {u : Upstream Q A α}
    (hu : s.other.Sends ans u) :
    ({ s with other := u } : Combining Q A α).Follows ans signal other := by
  cases hu with
  | @step x ms hstep =>
    have hdrained : Combining.drained { s with
        other := ⟨x, stillOpen s.other.isOpen (ms.map Message.event),
          s.other.pending ++ heardMessages s.other.isOpen ms⟩ } =
        (heardMessages s.other.isOpen ms).foldl CombineLatest.handleOther s.drained := by
      rw [Combining.drained_of_nil hself hother, Combining.drained, hself, hother]
      rfl
    cases h with
    | @running lv rv out heq hrun =>
      rw [heq, foldl_handleOther, map_heardMessages] at hdrained
      by_cases herror : Event.error ∈ heard s.other.isOpen (ms.map Message.event)
      · refine .closed ⟨?_, ?_⟩ (hrun.tail (.right hstep))
        · rw [hdrained]
          exact stillOpen_of_error herror
        · rw [hdrained, Bool.not_not]
      · refine .running ?_ (hrun.tail (.right hstep))
        rw [hdrained, completed_eq herror, Bool.not_not]
    | closed hclosed hrun =>
      refine .closed ?_ hrun
      rw [hdrained]
      exact hclosed.foldl_handleOther _

/-- Once the subscriber has got a terminal event, a dropped message makes no difference. -/
theorem Combining.Follows.drops (h : s.Follows ans signal other)
    (hended : stillOpen true s.handlers.sent = false) (hhandlers : s'.handlers = s.handlers) :
    s'.Follows ans signal other := by
  have hclosed : s.handlers.Closed s.handlers.sent := ⟨hended, rfl⟩
  have hclosed' : s'.handlers.Closed s.handlers.sent := by rwa [hhandlers]
  have hheard : heard true s'.drained.sent = heard true s.drained.sent :=
    (closed_drained hclosed').heard_eq.trans (closed_drained hclosed).heard_eq.symm
  have hstill := (closed_drained hclosed').stillOpen_eq
  cases h with
  | @running lv rv out hdrained hrun =>
    refine .closed ⟨hstill, ?_⟩ hrun
    rw [hheard, hdrained]
  | closed hends hrun => exact .closed ⟨hstill, hheard.trans hends.heard_eq⟩ hrun

/-- **Every step of a subscription is one of the streams**, or comes after the end; and handling
its messages makes no step. -/
theorem Combining.Follows.moves (h : s.Follows ans signal other)
    (hone : s.self.pending = [] ∨ s.other.pending = []) (hok : OneByOne s e)
    (hs : s.Moves ans e s') :
    s'.Follows ans signal other ∧ (s'.self.pending = [] ∨ s'.other.pending = []) := by
  cases hs with
  | selfSends hu =>
    obtain ⟨hself, hother⟩ := hok rfl
    exact ⟨h.selfSends hself hother hu, Or.inr hother⟩
  | otherSends hu =>
    obtain ⟨hself, hother⟩ := hok rfl
    exact ⟨h.otherSends hself hother hu, Or.inl hself⟩
  | @selfHandles m u hu =>
    obtain @⟨rest, hpending⟩ := hu
    have hother : s.other.pending = [] :=
      hone.resolve_left (by rw [hpending]; exact List.cons_ne_nil _ _)
    have hdrained : Combining.drained { s with
        self := { s.self with pending := rest }
        handlers := s.handlers.handleSelf m } = s.drained := by
      rw [Combining.drained, Combining.drained, hpending]
      rfl
    refine ⟨?_, Or.inr hother⟩
    cases h with
    | running heq hrun => exact .running (hdrained.trans heq) hrun
    | closed hclosed hrun => exact .closed (by rwa [hdrained]) hrun
  | @otherHandles m u hu =>
    obtain @⟨rest, hpending⟩ := hu
    have hself : s.self.pending = [] :=
      hone.resolve_right (by rw [hpending]; exact List.cons_ne_nil _ _)
    have hdrained : Combining.drained { s with
        other := { s.other with pending := rest }
        handlers := s.handlers.handleOther m } = s.drained := by
      rw [Combining.drained, Combining.drained, hpending, hself]
      rfl
    refine ⟨?_, Or.inl hself⟩
    cases h with
    | running heq hrun => exact .running (hdrained.trans heq) hrun
    | closed hclosed hrun => exact .closed (by rwa [hdrained]) hrun
  | selfDrops hu hended =>
    obtain @⟨rest, hpending⟩ := hu
    have hother : s.other.pending = [] :=
      hone.resolve_left (by rw [hpending]; exact List.cons_ne_nil _ _)
    exact ⟨h.drops hended rfl, Or.inr hother⟩
  | otherDrops hu hended =>
    obtain @⟨rest, hpending⟩ := hu
    have hself : s.self.pending = [] :=
      hone.resolve_right (by rw [hpending]; exact List.cons_ne_nil _ _)
    exact ⟨h.drops hended rfl, Or.inl hself⟩

theorem follows_of_reachWhile (h : (combiningLatest ans signal other).ReachWhile OneByOne s) :
    s.Follows ans signal other ∧ (s.self.pending = [] ∨ s.other.pending = []) := by
  refine h.invariant (I := fun s => s.Follows ans signal other ∧
    (s.self.pending = [] ∨ s.other.pending = [])) ⟨?_, Or.inl rfl⟩ ?_
  · exact .running rfl (.single (.combineLatestWith signal other))
  · intro s e s' hi hok hs
    exact hi.1.moves hi.2 hok hs

/-- **The handlers send what the streams send**: however the subscriptions take turns, if each
of their steps is handled before another is made, the subscriber hears what it would hear in a
run of the `combineLatestWith`, one with the same subscriptions and values as long as nothing
has ended it; and what it has been sent is the beginning of that. -/
theorem combineLatest_follows_streams
    (h : (combiningLatest ans signal other).ReachWhile OneByOne s) :
    s.handlers.sent <+: s.drained.sent ∧
      ∃ z out, Run ans (.starting (.combineLatestWith signal other)) z out ∧
        heard true s.drained.sent = heard true out ∧
        (stillOpen true s.drained.sent = true →
          z = .combining s.self.sub s.self.isOpen s.drained.lastSelfValue
            s.other.sub s.other.isOpen s.drained.lastOtherValue) := by
  refine ⟨sent_prefix_drained s, ?_⟩
  cases (follows_of_reachWhile h).1 with
  | @running lv rv out hdrained hrun =>
    refine ⟨_, out, hrun, ?_, fun _ => ?_⟩
    · rw [hdrained]
    · rw [hdrained]
  | closed hclosed hrun =>
    refine ⟨_, _, hrun, hclosed.heard_eq, fun hopen => ?_⟩
    exact absurd (hclosed.stillOpen_eq.symm.trans hopen) (by decide)

/-- A signal of two values. -/
def oneAndTwo : Signal Empty (fun _ => Empty) ℕ :=
  .just [.next (.obj 1), .next (.obj 2), .completed]

/-- And one of one. -/
def three : Signal Empty (fun _ => Empty) ℕ := .ret (.obj 3)

theorem step_oneAndTwo : Step id (.starting oneAndTwo) .idle
    ([.sendNext (.obj 1), .sendNext (.obj 2), .sendCompleted].map Message.event) := .just _

theorem step_three : Step id (.starting three) .idle
    ([.sendNext (.obj 3), .sendCompleted].map Message.event) := .just _

theorem reachWhile_oneAndTwo : ∃ s,
    (combiningLatest id oneAndTwo three).ReachWhile OneByOne s ∧
      s.drained.sent = [.next (pairUp (.obj 1) (.obj 3)), .next (pairUp (.obj 2) (.obj 3)),
        .completed] ∧ s.handlers.sent.length = 2 := by
  have hinit : (combiningLatest id oneAndTwo three).ReachWhile OneByOne _ := .init
  have hsent := (((hinit.step (fun _ => ⟨rfl, rfl⟩) (Combining.Moves.otherSends ⟨step_three⟩)).step
    (fun h => by cases h) (Combining.Moves.otherHandles ⟨rfl⟩)).step
    (fun h => by cases h) (Combining.Moves.otherHandles ⟨rfl⟩)).step
    (fun _ => ⟨rfl, rfl⟩) (Combining.Moves.selfSends ⟨step_oneAndTwo⟩)
  exact ⟨_, (hsent.step (fun h => by cases h) (Combining.Moves.selfHandles ⟨rfl⟩)).step
    (fun h => by cases h) (Combining.Moves.selfHandles ⟨rfl⟩), rfl, rfl⟩

theorem combineLatest_follows_streams_oneAndTwo : ∃ z out,
    Run id (.starting (.combineLatestWith oneAndTwo three)) z out ∧
      heard true out =
        [.next (pairUp (.obj 1) (.obj 3)), .next (pairUp (.obj 2) (.obj 3)), .completed] := by
  obtain ⟨s, hreach, hsent, -⟩ := reachWhile_oneAndTwo
  obtain ⟨-, z, out, hrun, hheard, -⟩ := combineLatest_follows_streams hreach
  rw [hsent] at hheard
  exact ⟨z, out, hrun, hheard.symm⟩

/-! ### Every interleaving -/

/-- How far both sides have come: what has been handled of each, and that this decides what the
handlers have stored and sent. -/
structure Combining.Delivers (ans : (q : Q) → A q) (o p : Outcome α) (s : Combining Q A α)
    (sl sr : List (Event α)) : Prop where
  self_progress : Progress ans o.events s.self.sub s.self.isOpen
    (sl ++ s.self.pending.map Message.event)
  other_progress : Progress ans p.events s.other.sub s.other.isOpen
    (sr ++ s.other.pending.map Message.event)
  handlers_eq : s.handlers = ⟨latest none sl, sl.any Event.terminal, latest none sr,
    sr.any Event.terminal, pairOut sl sr⟩

variable {v w : Option (Value α)} {selfCompletes otherCompletes : Bool} {sl sr : List (Event α)}

/-- The handlers get the next message of the signal itself. -/
theorem Combining.Delivers.selfHandles
    (h : s.Delivers ans (.settled v selfCompletes) (.settled w otherCompletes) sl sr)
    {m : Message α} {u : Upstream Q A α} (hu : s.self.Handles m u) :
    ({ s with self := u, handlers := s.handlers.handleSelf m } : Combining Q A α).Delivers ans
      (.settled v selfCompletes) (.settled w otherCompletes) (sl ++ [m.event]) sr := by
  obtain ⟨hprogress, hnext⟩ := hu.progress h.self_progress
  have hterminal : m.event.terminal = m.event.isCompleted :=
    terminal_eq_isCompleted (hnext.subset List.mem_concat_self)
  refine ⟨hprogress, h.other_progress, ?_⟩
  show s.handlers.handleSelf m = _
  rw [handleSelf_eq, h.handlers_eq, pairOut_left hnext, latest_append, ← hterminal]
  simp [List.any_append]

/-- The handlers get the next message of the other signal. -/
theorem Combining.Delivers.otherHandles
    (h : s.Delivers ans (.settled v selfCompletes) (.settled w otherCompletes) sl sr)
    {m : Message α} {u : Upstream Q A α} (hu : s.other.Handles m u) :
    ({ s with other := u, handlers := s.handlers.handleOther m } : Combining Q A α).Delivers ans
      (.settled v selfCompletes) (.settled w otherCompletes) sl (sr ++ [m.event]) := by
  obtain ⟨hprogress, hnext⟩ := hu.progress h.other_progress
  have hterminal : m.event.terminal = m.event.isCompleted :=
    terminal_eq_isCompleted (hnext.subset List.mem_concat_self)
  refine ⟨h.self_progress, hprogress, ?_⟩
  show s.handlers.handleOther m = _
  rw [handleOther_eq, h.handlers_eq, pairOut_right hnext, latest_append, ← hterminal]
  simp [List.any_append]

/-- **Every step delivers more of the outcome**, or none. -/
theorem Combining.Delivers.moves
    (h : s.Delivers ans (.settled v selfCompletes) (.settled w otherCompletes) sl sr)
    (hs : s.Moves ans e s') :
    ∃ sl sr, s'.Delivers ans (.settled v selfCompletes) (.settled w otherCompletes) sl sr := by
  cases hs with
  | selfSends hu =>
    exact ⟨sl, sr, hu.progress h.self_progress, h.other_progress, h.handlers_eq⟩
  | otherSends hu =>
    exact ⟨sl, sr, h.self_progress, hu.progress h.other_progress, h.handlers_eq⟩
  | selfHandles hu => exact ⟨_, sr, h.selfHandles hu⟩
  | otherHandles hu => exact ⟨sl, _, h.otherHandles hu⟩
  | selfDrops hu hended =>
    -- once the subscriber has got a terminal event, there is nothing to drop
    rw [h.handlers_eq, stillOpen_pairOut, Bool.not_eq_false', Bool.and_eq_true] at hended
    exact absurd (hended.1.symm.trans (hu.not_ended h.self_progress)) (by decide)
  | otherDrops hu hended =>
    rw [h.handlers_eq, stillOpen_pairOut, Bool.not_eq_false', Bool.and_eq_true] at hended
    exact absurd (hended.2.symm.trans (hu.not_ended h.other_progress)) (by decide)

theorem delivers_of_reachable (hself : signal.outcome ans = some (.settled v selfCompletes))
    (hother : other.outcome ans = some (.settled w otherCompletes))
    (h : (combiningLatest ans signal other).Reachable s) :
    ∃ sl sr, s.Delivers ans (.settled v selfCompletes) (.settled w otherCompletes) sl sr := by
  refine h.invariant (I := fun s => ∃ sl sr,
    s.Delivers ans (.settled v selfCompletes) (.settled w otherCompletes) sl sr) ?_ ?_
  · exact ⟨[], [], .start (sends_of_outcome ans _ hself), .start (sends_of_outcome ans _ hother),
      rfl⟩
  · rintro s e s' ⟨sl, sr, hi⟩ hs
    exact hi.moves hs

/-- **The handlers deliver the outcome**: if a `combineLatestWith` has an outcome, then however
the messages of both sides are interleaved, the subscriber hears a beginning of it, and all of it
once nothing is outstanding or it has got a terminal event. -/
theorem combineLatest_delivers_outcome {o : Outcome α}
    (ho : (signal.combineLatestWith other).outcome ans = some o)
    (h : (combiningLatest ans signal other).Reachable s) :
    heard true s.handlers.sent <+: o.events ∧
      (stillOpen true s.handlers.sent = false ∨ (s.self.IsDone ∧ s.other.IsDone) →
        heard true s.handlers.sent = o.events) := by
  obtain ⟨os, hself, ho⟩ := Option.bind_eq_some_iff.mp ho
  obtain ⟨ot, hother, ho⟩ := Option.bind_eq_some_iff.mp ho
  cases os with
  | crashed k => cases ho
  | settled v selfCompletes =>
    cases ot with
    | crashed k => cases ho
    | settled w otherCompletes =>
      obtain rfl := Option.some.inj ho
      obtain ⟨sl, sr, hself, hother, hhandlers⟩ := delivers_of_reachable hself hother h
      rw [hhandlers]
      have hbegins := pairOut_isPrefix ((List.prefix_append _ _).trans hself.isPrefix)
        ((List.prefix_append _ _).trans hother.isPrefix)
      rw [heard_of_isPrefix hbegins]
      refine ⟨hbegins, ?_⟩
      rintro (hended | ⟨hdonel, hdoner⟩)
      · rw [← heard_eq_events rfl hended hbegins, heard_of_isPrefix hbegins]
      · rw [hdonel.sent_eq hself, hdoner.sent_eq hother, pairOut_events]

/-- The messages of both sides are handled in turn. -/
theorem reachable_inTurn : ∃ s, (combiningLatest id three three).Reachable s ∧
    stillOpen true s.handlers.sent = false := by
  have hinit : (combiningLatest id three three).Reachable _ := .init
  have hsent := (hinit.step (Combining.Moves.selfSends ⟨step_three⟩)).step
    (Combining.Moves.otherSends ⟨step_three⟩)
  exact ⟨_, (((hsent.step (Combining.Moves.otherHandles ⟨rfl⟩)).step
    (Combining.Moves.selfHandles ⟨rfl⟩)).step (Combining.Moves.otherHandles ⟨rfl⟩)).step
    (Combining.Moves.selfHandles ⟨rfl⟩), rfl⟩

theorem combineLatest_delivers_outcome_inTurn : ∃ s,
    (combiningLatest id three three).Reachable s ∧
      heard true s.handlers.sent = [.next (pairUp (.obj 3) (.obj 3)), .completed] := by
  have houtcome : (three.combineLatestWith three).outcome id =
      some (.settled (some (pairUp (.obj 3) (.obj 3))) true) := rfl
  obtain ⟨s, hreach, hended⟩ := reachable_inTurn
  exact ⟨s, hreach, (combineLatest_delivers_outcome houtcome hreach).2 (Or.inl hended)⟩

end LANScan.ReactiveCocoa
