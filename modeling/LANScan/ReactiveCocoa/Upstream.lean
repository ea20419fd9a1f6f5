import LANScan.ReactiveCocoa.Subscriber

/-!
# Subscriptions whose messages are handled one by one

The signals of this library subscribe to others, and have a handler for each message that the
subscriber of such a subscription passes on.  A step of the subscription sends its messages from
a thread of its own, so between two of them any other handler may run.

## Main definitions

* `Upstream` — a subscription with the messages that wait to be handled.
* `Upstream.Sends`, `Upstream.Handles` — its steps.
-/

namespace LANScan.ReactiveCocoa

open Reactive

variable {Q : Type} {A : Q → Type} {α : Type}

/-- The messages that a subscriber passes to its handlers. -/
def heardMessages : Bool → List (Message α) → List (Message α)
  | _, [] => []
  | false, _ :: _ => []
  | true, m :: ms => m :: heardMessages (!m.event.terminal) ms

/-- A subscription: whether its subscriber still listens, and the messages that it was sent and
that have not been handled. -/
structure Upstream (Q : Type) (A : Q → Type) (α : Type) where
  sub : Sub Q A α
  isOpen : Bool
  pending : List (Message α)

namespace Upstream

/-- A subscription that has just been made. -/
def starting (signal : Signal Q A α) : Upstream Q A α := ⟨.starting signal, true, []⟩

/-- A step of the subscription. -/
inductive Sends (ans : (q : Q) → A q) (u : Upstream Q A α) : Upstream Q A α → Prop
  | step {x : Sub Q A α} {ms : List (Message α)} (h : Step ans u.sub x (ms.map Message.event)) :
    Sends ans u ⟨x, stillOpen u.isOpen (ms.map Message.event),
      u.pending ++ heardMessages u.isOpen ms⟩

/-- The next message is taken to be handled. -/
inductive Handles (u : Upstream Q A α) (m : Message α) : Upstream Q A α → Prop
  | head {rest : List (Message α)} (h : u.pending = m :: rest) :
    Handles u m { u with pending := rest }

/-- Nothing is outstanding, and everything has been handled. -/
def IsDone (u : Upstream Q A α) : Prop := Quiet u.sub ∧ u.pending = []

end Upstream

/-! ### What the handlers get -/

/-- The handlers get what is heard. -/
theorem map_heardMessages : ∀ (isOpen : Bool) (ms : List (Message α)),
    (heardMessages isOpen ms).map Message.event = heard isOpen (ms.map Message.event)
  | _, [] => rfl
  | false, m :: ms => (heard_messages_false (m :: ms)).symm
  | true, m :: ms => by
    rw [heardMessages, List.map_cons, List.map_cons, heard, map_heardMessages]

variable {ans : (q : Q) → A q} {o : Outcome α} {u u' : Upstream Q A α} {sent : List (Event α)}
  {m : Message α}

/-- What is still to be sent after a step. -/
theorem Upstream.Sends.progress (hu : u.Sends ans u')
    (h : Progress ans o.events u.sub u.isOpen (sent ++ u.pending.map Message.event)) :
    Progress ans o.events u'.sub u'.isOpen (sent ++ u'.pending.map Message.event) := by
  cases hu with
  | step hstep =>
    obtain ⟨hheard, hnext⟩ := h.step hstep
    rw [List.map_append, map_heardMessages, hheard, ← List.append_assoc]
    exact hnext

/-- And after a message is handled. -/
theorem Upstream.Handles.progress (hu : u.Handles m u')
    (h : Progress ans o.events u.sub u.isOpen (sent ++ u.pending.map Message.event)) :
    Progress ans o.events u'.sub u'.isOpen
        (sent ++ [m.event] ++ u'.pending.map Message.event) ∧ sent ++ [m.event] <+: o.events := by
  obtain @⟨rest, hpending⟩ := hu
  rw [hpending, List.map_cons, ← List.singleton_append, ← List.append_assoc] at h
  exact ⟨h, (List.prefix_append _ _).trans h.isPrefix⟩

/-- A stream that has ended has nothing left to be handled. -/
theorem Upstream.Handles.not_ended (hu : u.Handles m u')
    (h : Progress ans o.events u.sub u.isOpen (sent ++ u.pending.map Message.event)) :
    sent.any Event.terminal = false := by
  cases hended : sent.any Event.terminal with
  | false => rfl
  | true =>
    obtain ⟨rest, heq⟩ := (hu.progress h).2
    rw [List.append_assoc] at heq
    have hnil := eq_nil_of_terminal heq.symm hended
    cases hnil

/-- A stream with nothing left to do has sent all of it. -/
theorem Upstream.IsDone.sent_eq (hdone : u.IsDone)
    (h : Progress ans o.events u.sub u.isOpen (sent ++ u.pending.map Message.event)) :
    sent = o.events := by
  rw [hdone.2, List.map_nil, List.append_nil] at h
  exact h.quiet hdone.1

end LANScan.ReactiveCocoa
