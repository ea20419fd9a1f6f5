import Mathlib.Algebra.GroupWithZero.Nat
import LANScan.Reactive.Termination
import LANScan.ReactiveCocoa.Subscriber

/-!
# Delivery on the main thread

`deliverOnMainThread` hands its events to `performOnMainThread`, which runs a block in place
if it is called on the main thread and no other block is counted, and puts it on the main queue
otherwise.  The handlers call it under the lock of their subscriber, so one call comes after
another, and only a block that runs in place can call it from within a call.  Blocks of the
main queue run without that lock.  No block drains the main queue itself.

## Main definitions

* `MainThread` — the counter, the call in progress, and the blocks that wait and run.
* `mainThread` — the machine of all that can happen.

## Main results

* `mainThread_keeps_order` — **blocks run one at a time in the order of their calls**, in place
  exactly when no block is waiting or running.
* `mainThread_delivers_all` — **and all of them run.**
* `mainThread_follows_stream` — what has run is what a `Reactive.Step` run delivers.
-/

namespace LANScan.ReactiveCocoa

open Reactive

variable {α : Type}

/-! ### Calls and blocks -/

/-- A call of `performOnMainThread` after it has counted its block. -/
structure PerformCall (α : Type) where
  isMainThread : Bool
  message : Message α
  queued : BitVec 32

/-- What `performOnMainThread` works with, and the messages that it was called for and whose
blocks have begun to run. -/
structure MainThread (α : Type) where
  queueLength : BitVec 32
  /-- The call that has counted its block, but not decided about it. -/
  call : Option (PerformCall α)
  /-- How many calls run their blocks in place. -/
  inPlace : ℕ
  mainQueue : List (Message α)
  /-- A block of the main queue runs. -/
  running : Bool
  called : List (Message α)
  delivered : List (Message α)

/-- What can happen. -/
inductive MainThreadEvent (α : Type)
  /-- A call counts its block. -/
  | performOnMainThread (isMainThread : Bool) (message : Message α)
  /-- It runs its block, or puts it on the main queue. -/
  | dispatch
  /-- A block that runs in place returns. -/
  | returned
  /-- The main thread takes a block from its queue. -/
  | dequeue
  /-- That block returns. -/
  | finished

namespace MainThread

/-- The block of a message is counted. -/
def performOnMainThread (s : MainThread α) (isMainThread : Bool) (message : Message α) :
    MainThread α :=
  let queued := s.queueLength + 1
  { s with
    queueLength := queued
    call := some ⟨isMainThread, message, queued⟩
    called := s.called ++ [message] }

/-- What an event does; `none` is one that cannot happen. -/
def next (s : MainThread α) : MainThreadEvent α → Option (MainThread α)
  | .performOnMainThread isMainThread message =>
    some (s.performOnMainThread isMainThread message)
  | .dispatch => do
    let call ← s.call
    if call.isMainThread ∧ call.queued = 1 then
      -- the block begins to run within the call
      return { s with
        call := none
        inPlace := s.inPlace + 1
        delivered := s.delivered ++ [call.message] }
    else return { s with call := none, mainQueue := s.mainQueue ++ [call.message] }
  | .returned =>
    match s.inPlace with
    | 0 => none
    | n + 1 => some { s with inPlace := n, queueLength := s.queueLength - 1 }
  | .dequeue =>
    match s.mainQueue with
    | [] => none
    | message :: rest =>
      some { s with
        mainQueue := rest
        running := true
        delivered := s.delivered ++ [message] }
  | .finished =>
    if s.running then some { s with running := false, queueLength := s.queueLength - 1 } else none

/-- The main thread is not in a call that has not decided about its block. -/
def IsFree (s : MainThread α) : Prop := ∀ c ∈ s.call, c.isMainThread = false

/-- The threads take their turns: the lock is free for a call, or a block that runs in place
makes it; and the main thread does one thing at a time. -/
def Enabled (s : MainThread α) : MainThreadEvent α → Prop
  | .performOnMainThread isMainThread _ => s.call = none ∧ (s.inPlace ≠ 0 → isMainThread = true)
  | .dispatch => True
  | .returned => s.call = none
  | .dequeue => s.IsFree ∧ s.inPlace = 0 ∧ s.running = false
  | .finished => s.IsFree ∧ s.inPlace = 0

instance (s : MainThread α) : Decidable s.IsFree :=
  inferInstanceAs (Decidable (∀ c ∈ s.call, PerformCall.isMainThread c = false))

instance (s : MainThread α) : (e : MainThreadEvent α) → Decidable (s.Enabled e)
  | .performOnMainThread _ _ => inferInstanceAs (Decidable (s.call = none ∧ (_ → _)))
  | .dispatch => isTrue trivial
  | .returned => inferInstanceAs (Decidable (s.call = none))
  | .dequeue => inferInstanceAs (Decidable (_ ∧ _ ∧ _))
  | .finished => inferInstanceAs (Decidable (_ ∧ _))

/-- The messages whose blocks have not run yet, in the order of their calls. -/
def undelivered (s : MainThread α) : List (Message α) :=
  s.mainQueue ++ s.call.toList.map PerformCall.message

/-- How many blocks are counted. -/
def pending (s : MainThread α) : ℕ := s.undelivered.length + s.inPlace + s.running.toNat

end MainThread

/-- `performOnMainThread` and the main thread. -/
def mainThread (α : Type) : Machine (MainThread α) (MainThreadEvent α) where
  init := ⟨0, none, 0, [], false, [], []⟩
  Step s e s' := s.Enabled e ∧ s.next e = some s'

/-- The counter has room for the block of a call. -/
def HasRoom (s : MainThread α) : MainThreadEvent α → Prop
  | .performOnMainThread _ _ => s.pending + 1 < 2 ^ 32
  | _ => True

instance (s : MainThread α) : (e : MainThreadEvent α) → Decidable (HasRoom s e)
  | .performOnMainThread _ _ => inferInstanceAs (Decidable (_ < _))
  | .dispatch => isTrue trivial
  | .returned => isTrue trivial
  | .dequeue => isTrue trivial
  | .finished => isTrue trivial

/-- A computed run. -/
theorem reachWhile_of_mainThreadEvents {s : MainThread α} (es : List (MainThreadEvent α))
    (h : es.foldlM (fun s e => if s.Enabled e ∧ HasRoom s e then s.next e else none)
      (mainThread α).init = some s) : (mainThread α).ReachWhile HasRoom s :=
  Machine.reachWhile_of_guarded (m := mainThread α) (fun _ _ _ hok hs => ⟨hok, hs⟩) es h

/-! ### Order -/

variable {s s' : MainThread α} {e : MainThreadEvent α}

/-- The counter counts, and blocks run one at a time in the order of their calls. -/
structure Orderly (s : MainThread α) : Prop where
  called_eq : s.called = s.delivered ++ s.undelivered
  queueLength_eq : s.queueLength = BitVec.ofNat 32 s.pending
  pending_lt : s.pending < 2 ^ 32
  one : s.inPlace + s.running.toNat ≤ 1
  /-- Nothing changes while a call on the main thread decides. -/
  queued_eq : ∀ c ∈ s.call, c.isMainThread = true → c.queued = s.queueLength
  inPlace_main : s.inPlace ≠ 0 → ∀ c ∈ s.call, c.isMainThread = true

/-- A call on the main thread has counted one block exactly if no other is waiting or running. -/
theorem Orderly.queued_eq_one_iff (h : Orderly s) {c : PerformCall α} (hc : s.call = some c)
    (hmain : c.isMainThread = true) :
    c.queued = 1 ↔ s.mainQueue = [] ∧ s.inPlace = 0 ∧ s.running = false := by
  have hpending : s.pending = s.mainQueue.length + 1 + s.inPlace + s.running.toNat := by
    rw [MainThread.pending, MainThread.undelivered, hc, List.length_append]
    rfl
  have hlt := h.pending_lt
  -- the counter has not wrapped, so it is one only if this block alone is counted
  rw [h.queued_eq c hc hmain, h.queueLength_eq, ← BitVec.toNat_inj, BitVec.toNat_ofNat,
    Nat.mod_eq_of_lt hlt, hpending]
  constructor
  · intro hone
    have hone : s.mainQueue.length + 1 + s.inPlace + s.running.toNat = 1 := hone
    refine ⟨List.eq_nil_of_length_eq_zero (by omega), by omega, ?_⟩
    cases hr : s.running with
    | true =>
      rw [hr] at hone
      have : Bool.toNat true = 1 := rfl
      omega
    | false => rfl
  · rintro ⟨hnil, hinPlace, hr⟩
    rw [hnil, hinPlace, hr]
    rfl

theorem ofNat_sub_one (n : ℕ) : BitVec.ofNat 32 (n + 1) - 1 = BitVec.ofNat 32 n := by
  rw [BitVec.ofNat_add]
  exact BitVec.add_sub_cancel ..

/-- A call counts its block. -/
theorem Orderly.performOnMainThread (h : Orderly s) {isMainThread : Bool} (message : Message α)
    (hcall : s.call = none) (hinPlace : s.inPlace ≠ 0 → isMainThread = true)
    (hroom : s.pending + 1 < 2 ^ 32) : Orderly (s.performOnMainThread isMainThread message) := by
  have hbefore : s.undelivered = s.mainQueue := by
    rw [MainThread.undelivered, hcall]
    exact List.append_nil _
  have hpending : (s.performOnMainThread isMainThread message).pending = s.pending + 1 := by
    rw [MainThread.pending, MainThread.pending, hbefore]
    show (s.mainQueue ++ [message]).length + s.inPlace + s.running.toNat = _
    rw [List.length_append, List.length_singleton]
    omega
  refine ⟨?_, ?_, ?_, h.one, ?_, ?_⟩
  · show s.called ++ [message] = s.delivered ++ (s.mainQueue ++ [message])
    rw [h.called_eq, hbefore, List.append_assoc]
  · rw [hpending, BitVec.ofNat_add]
    exact congrArg (· + 1) h.queueLength_eq
  · rw [hpending]
    exact hroom
  · intro c hc _
    obtain rfl := Option.some.inj hc
    rfl
  · intro hne c hc
    obtain rfl := Option.some.inj hc
    exact hinPlace hne

/-- A call decides about its block. -/
theorem Orderly.dispatch (h : Orderly s) (hs : s.next .dispatch = some s') : Orderly s' := by
  obtain ⟨c, hc, hs⟩ := Option.bind_eq_some_iff.mp hs
  have hbefore : s.undelivered = s.mainQueue ++ [c.message] := by
    rw [MainThread.undelivered, hc]
    rfl
  have hpending : s.pending = s.mainQueue.length + 1 + s.inPlace + s.running.toNat := by
    rw [MainThread.pending, hbefore, List.length_append]
    rfl
  split at hs
  next hplace =>
    obtain rfl := Option.some.inj hs
    obtain ⟨hmain, hone⟩ := hplace
    -- in place, with nothing in line: so the block is the first that has not run
    obtain ⟨hnil, hinPlace, hrunning⟩ := (h.queued_eq_one_iff hc hmain).mp hone
    have hsame : MainThread.pending { s with
        call := none
        inPlace := s.inPlace + 1
        delivered := s.delivered ++ [c.message] } = s.pending := by
      rw [hpending]
      show (s.mainQueue ++ []).length + (s.inPlace + 1) + s.running.toNat = _
      rw [List.append_nil]
      omega
    refine ⟨?_, ?_, ?_, ?_, fun c hc => (by cases hc),
      fun _ c hc => (by cases hc)⟩
    · show s.called = s.delivered ++ [c.message] ++ (s.mainQueue ++ [])
      rw [h.called_eq, hbefore, hnil, List.append_assoc]
      rfl
    · rw [hsame]
      exact h.queueLength_eq
    · rw [hsame]
      exact h.pending_lt
    · show s.inPlace + 1 + s.running.toNat ≤ 1
      rw [hinPlace, hrunning]
      decide
  next =>
    -- at the end of the queue, where the call had been counted
    obtain rfl := Option.some.inj hs
    have hsame : MainThread.undelivered { s with
        call := none
        mainQueue := s.mainQueue ++ [c.message] } = s.undelivered := by
      rw [hbefore]
      exact List.append_nil _
    refine ⟨?_, ?_, ?_, h.one, fun c hc => (by cases hc),
      fun _ c hc => (by cases hc)⟩
    · rw [hsame]
      exact h.called_eq
    · rw [MainThread.pending, hsame]
      exact h.queueLength_eq
    · rw [MainThread.pending, hsame]
      exact h.pending_lt

/-- A block that was counted returns. -/
theorem Orderly.returned (h : Orderly s) {n : ℕ} (hn : s.inPlace = n + 1) (hcall : s.call = none) :
    Orderly { s with inPlace := n, queueLength := s.queueLength - 1 } := by
  have hpending : s.pending =
      MainThread.pending { s with inPlace := n, queueLength := s.queueLength - 1 } + 1 := by
    rw [MainThread.pending, hn]
    show _ = s.undelivered.length + n + s.running.toNat + 1
    omega
  have hone := h.one
  have hlt := h.pending_lt
  refine ⟨h.called_eq, ?_, by omega, ?_, ?_, ?_⟩
  · rw [h.queueLength_eq, hpending]
    exact ofNat_sub_one _
  · show n + s.running.toNat ≤ 1
    omega
  · intro c hc
    rw [hcall] at hc
    cases hc
  · intro _ c hc
    rw [hcall] at hc
    cases hc

theorem Orderly.finished (h : Orderly s) (hrunning : s.running = true) (hfree : s.IsFree) :
    Orderly { s with running := false, queueLength := s.queueLength - 1 } := by
  have hpending : s.pending =
      MainThread.pending { s with running := false, queueLength := s.queueLength - 1 } + 1 := by
    rw [MainThread.pending, hrunning]
    rfl
  have hone := h.one
  have hlt := h.pending_lt
  refine ⟨h.called_eq, ?_, by omega, ?_, ?_, h.inPlace_main⟩
  · rw [h.queueLength_eq, hpending]
    exact ofNat_sub_one _
  · exact Nat.le_trans (Nat.le_add_right ..) hone
  · -- a call of another thread may be under way, and need not be told of the change
    intro c hc hmain
    rw [hfree c hc] at hmain
    cases hmain

/-- The main thread takes a block from its queue. -/
theorem Orderly.dequeue (h : Orderly s) {message : Message α} {rest : List (Message α)}
    (hqueue : s.mainQueue = message :: rest) (hfree : s.IsFree) (hinPlace : s.inPlace = 0)
    (hrunning : s.running = false) :
    Orderly { s with
      mainQueue := rest
      running := true
      delivered := s.delivered ++ [message] } := by
  have hbefore : s.undelivered = message :: (rest ++ s.call.toList.map PerformCall.message) := by
    rw [MainThread.undelivered, hqueue]
    rfl
  have hpending : MainThread.pending { s with
      mainQueue := rest
      running := true
      delivered := s.delivered ++ [message] } = s.pending := by
    rw [MainThread.pending, MainThread.pending, hbefore, hrunning, List.length_cons]
    show (rest ++ s.call.toList.map PerformCall.message).length + s.inPlace + 1 =
      (rest ++ s.call.toList.map PerformCall.message).length + 1 + s.inPlace + 0
    omega
  refine ⟨?_, ?_, ?_, ?_, ?_, ?_⟩
  · show s.called = s.delivered ++ [message] ++ (rest ++ s.call.toList.map PerformCall.message)
    rw [h.called_eq, hbefore, List.append_assoc]
    rfl
  · rw [hpending]
    exact h.queueLength_eq
  · rw [hpending]
    exact h.pending_lt
  · show s.inPlace + 1 ≤ 1
    omega
  · intro c hc hmain
    rw [hfree c hc] at hmain
    cases hmain
  · intro hne
    exact absurd hinPlace hne

/-- **Every step keeps the order**, and a call also as long as the counter has room. -/
theorem Orderly.step (h : Orderly s)
    (hroom : HasRoom s e) (hen : s.Enabled e) (hs : s.next e = some s') : Orderly s' := by
  cases e with
  | performOnMainThread isMainThread message =>
    obtain rfl := Option.some.inj hs
    exact h.performOnMainThread message hen.1 hen.2 hroom
  | dispatch => exact h.dispatch hs
  | returned =>
    cases hn : s.inPlace with
    | zero =>
      rw [MainThread.next, hn] at hs
      cases hs
    | succ n =>
      rw [MainThread.next, hn] at hs
      obtain rfl := Option.some.inj hs
      exact h.returned hn hen
  | dequeue =>
    cases hqueue : s.mainQueue with
    | nil =>
      rw [MainThread.next, hqueue] at hs
      cases hs
    | cons message rest =>
      rw [MainThread.next, hqueue] at hs
      obtain rfl := Option.some.inj hs
      exact h.dequeue hqueue hen.1 hen.2.1 hen.2.2
  | finished =>
    rw [MainThread.next] at hs
    split at hs
    next hrunning =>
      obtain rfl := Option.some.inj hs
      exact h.finished hrunning hen.1
    next => cases hs

theorem orderly_init : Orderly (mainThread α).init where
  called_eq := rfl
  queueLength_eq := rfl
  pending_lt := Nat.two_pow_pos 32
  one := Nat.zero_le 1
  queued_eq c hc := by cases hc
  inPlace_main hne := absurd rfl hne

theorem orderly_of_reachWhile (h : (mainThread α).ReachWhile HasRoom s) : Orderly s :=
  h.invariant orderly_init fun _ _ _ hi hok hs => hi.step hok hs.1 hs.2

/-- **Blocks run in the order of their calls**: whichever threads call, and whatever the blocks
do, as long as the counter has room the blocks that have begun to run are the first that were
asked for, with the others still in line, no two run at once, and the call in progress will run
its block in place exactly if it is on the main thread and no other block is waiting or
running. -/
theorem mainThread_keeps_order (h : (mainThread α).ReachWhile HasRoom s) :
    s.called = s.delivered ++ s.undelivered ∧ s.inPlace + s.running.toNat ≤ 1 ∧
      ∀ c ∈ s.call, c.isMainThread = true ∧ c.queued = 1 ↔
        c.isMainThread = true ∧ s.mainQueue = [] ∧ s.inPlace = 0 ∧ s.running = false := by
  have horderly := orderly_of_reachWhile h
  refine ⟨horderly.called_eq, horderly.one, fun c hc => ?_⟩
  exact and_congr_right fun hmain => horderly.queued_eq_one_iff hc hmain

/-- The block of a first call on the main thread runs in place and calls for a second, and while
that one runs from the queue a third is called for on another thread. -/
def threeCalls : List (MainThreadEvent ℕ) :=
  [.performOnMainThread true (.sendNext (.obj 1)), .dispatch,
    .performOnMainThread true (.sendNext (.obj 2)), .dispatch, .returned,
    .performOnMainThread false .sendCompleted, .dequeue]

theorem mainThread_keeps_order_threeCalls :
    ∃ s, (mainThread ℕ).ReachWhile HasRoom s ∧ s.delivered.length = 2 ∧
      s.called = s.delivered ++ s.undelivered ∧ s.inPlace + s.running.toNat ≤ 1 := by
  have hrun : ∃ s, (mainThread ℕ).ReachWhile HasRoom s ∧ s.delivered.length = 2 :=
    ⟨_, reachWhile_of_mainThreadEvents threeCalls rfl, rfl⟩
  obtain ⟨s, hreach, hlength⟩ := hrun
  obtain ⟨hcalled, hone, -⟩ := mainThread_keeps_order hreach
  exact ⟨s, hreach, hlength, hcalled, hone⟩

/-! ### Delivery -/

/-- What is left to do for the blocks that are counted. -/
def MainThread.weight (s : MainThread α) : ℕ :=
  2 * s.mainQueue.length + 3 * s.call.toList.length + s.inPlace + s.running.toNat

/-- Nothing is asked for. -/
def IsDelivery (_ : MainThread α) : MainThreadEvent α → Prop
  | .performOnMainThread _ _ => False
  | _ => True

/-- Only calls need room. -/
theorem hasRoom_of_isDelivery (he : IsDelivery s e) : HasRoom s e := by
  cases e with
  | performOnMainThread => exact he.elim
  | _ => exact trivial

theorem delivery_weight (he : IsDelivery s e) (hen : s.Enabled e) (hs : s.next e = some s') :
    s'.weight < s.weight ∧ s'.called = s.called := by
  cases e with
  | performOnMainThread => exact he.elim
  | dispatch =>
    obtain ⟨c, hc, hs⟩ := Option.bind_eq_some_iff.mp hs
    split at hs
    next =>
      obtain rfl := Option.some.inj hs
      simp [MainThread.weight, hc]
      omega
    next =>
      obtain rfl := Option.some.inj hs
      simp [MainThread.weight, hc]
      omega
  | returned =>
    cases hn : s.inPlace with
    | zero =>
      rw [MainThread.next, hn] at hs
      cases hs
    | succ n =>
      rw [MainThread.next, hn] at hs
      obtain rfl := Option.some.inj hs
      simp [MainThread.weight, hn]
  | dequeue =>
    cases hqueue : s.mainQueue with
    | nil =>
      rw [MainThread.next, hqueue] at hs
      cases hs
    | cons message rest =>
      rw [MainThread.next, hqueue] at hs
      obtain rfl := Option.some.inj hs
      simp [MainThread.weight, hqueue, hen.2.2]
      omega
  | finished =>
    rw [MainThread.next] at hs
    split at hs
    next hrunning =>
      obtain rfl := Option.some.inj hs
      simp [MainThread.weight, hrunning]
    next => cases hs

/-- Where a block is counted, something can be done for it. -/
theorem exists_delivery (hbusy : s.pending ≠ 0) :
    ∃ e s', IsDelivery s e ∧ (mainThread α).Step s e s' := by
  have hnext : ∀ e, IsDelivery s e → s.Enabled e → (s.next e).isSome = true →
      ∃ e s', IsDelivery s e ∧ (mainThread α).Step s e s' := by
    intro e he hen hsome
    obtain ⟨s', hs⟩ := Option.isSome_iff_exists.mp hsome
    exact ⟨e, s', he, hen, hs⟩
  cases hc : s.call with
  | some c =>
    refine hnext .dispatch trivial trivial ?_
    simp only [MainThread.next, hc, Option.bind_eq_bind, Option.bind_some]
    split
    next => rfl
    next => rfl
  | none =>
    have hfree : s.IsFree := by
      intro c hc'
      rw [hc] at hc'
      cases hc'
    cases hn : s.inPlace with
    | succ n =>
      refine hnext .returned trivial hc ?_
      simp [MainThread.next, hn]
    | zero =>
      cases hrunning : s.running with
      | true =>
        refine hnext .finished trivial ⟨hfree, hn⟩ ?_
        simp [MainThread.next, hrunning]
      | false =>
        cases hqueue : s.mainQueue with
        | cons message rest =>
          refine hnext .dequeue trivial ⟨hfree, hn, hrunning⟩ ?_
          simp [MainThread.next, hqueue]
        | nil =>
          refine absurd ?_ hbusy
          rw [MainThread.pending, MainThread.undelivered, hqueue, hc, hn, hrunning]
          rfl

/-- Delivering keeps the order, and asks for nothing. -/
theorem orderly_of_steps {n : ℕ} (h : Orderly s)
    (hsteps : (mainThread α).Steps IsDelivery s n s') : Orderly s' ∧ s'.called = s.called := by
  induction hsteps with
  | refl => exact ⟨h, rfl⟩
  | step he hs _ ih =>
    have hnext := h.step (hasRoom_of_isDelivery he) hs.1 hs.2
    obtain ⟨horderly, hcalled⟩ := ih hnext
    exact ⟨horderly, hcalled.trans (delivery_weight he hs.1 hs.2).2⟩

/-- **All blocks run**: as long as nothing more is asked for, and if the blocks return, the
threads take a bounded number of steps, and every message that was asked for is delivered. -/
theorem mainThread_delivers_all (h : (mainThread α).ReachWhile HasRoom s) :
    (∀ n s', (mainThread α).Steps IsDelivery s n s' → n ≤ s.weight) ∧
      ∃ n s', (mainThread α).Steps IsDelivery s n s' ∧ s'.pending = 0 ∧
        s'.delivered = s.called := by
  have hlower : ∀ s e s', (mainThread α).Reachable s → IsDelivery s e →
      (mainThread α).Step s e s' → s'.weight < s.weight :=
    fun s e s' _ he hs => (delivery_weight he hs.1 hs.2).1
  refine ⟨fun n s' hsteps => ?_, ?_⟩
  · exact Nat.le_trans (Nat.le_add_right _ _) (hsteps.length_le hlower h.reachable)
  · obtain ⟨n, s', hsteps, hquiet⟩ := Machine.Reachable.exists_steps hlower
      (fun s _ hbusy => exists_delivery hbusy) h.reachable
    obtain ⟨horderly, hcalled⟩ := orderly_of_steps (orderly_of_reachWhile h) hsteps
    refine ⟨n, s', hsteps, hquiet, ?_⟩
    have hnil : s'.undelivered = [] := by
      refine List.eq_nil_of_length_eq_zero ?_
      have hpending : s'.undelivered.length + s'.inPlace + s'.running.toNat = 0 := hquiet
      omega
    rw [← hcalled, horderly.called_eq, hnil, List.append_nil]

theorem mainThread_delivers_all_threeCalls :
    ∃ s, (mainThread ℕ).ReachWhile HasRoom s ∧ s.weight = 4 ∧
      ∃ n s', (mainThread ℕ).Steps IsDelivery s n s' ∧ s'.delivered = s.called := by
  have hrun : ∃ s, (mainThread ℕ).ReachWhile HasRoom s ∧ s.weight = 4 :=
    ⟨_, reachWhile_of_mainThreadEvents threeCalls rfl, rfl⟩
  obtain ⟨s, hreach, hweight⟩ := hrun
  obtain ⟨-, n, s', hsteps, -, hdelivered⟩ := mainThread_delivers_all hreach
  exact ⟨s, hreach, hweight, n, s', hsteps, hdelivered⟩

/-! ### Streams -/

section Streams

variable {Q : Type} {A : Q → Type} {ans : (q : Q) → A q} {signal : Signal Q A α} {x z : Sub Q A α}

/-- What a source sends is put on the queue. -/
theorem run_enqueue {es : List (Event α)} (h : Run ans (.starting signal) x es) :
    Run ans (.starting (.deliverOnMainThread signal))
      (.delivering x (stillOpen true es) ((heard true es).filter fun e => !e.isCrash))
      ((heard true es).filter Event.isCrash) := by
  induction h with
  | refl => exact .single (.deliverOnMainThread signal)
  | tail _ hstep ih =>
    rw [stillOpen_append, heard_append, List.filter_append, List.filter_append]
    exact ih.tail (.enqueue hstep)

/-- What is on the queue is delivered. -/
theorem run_dequeue {isOpen : Bool} : ∀ (first : List (Event α)) {rest out : List (Event α)},
    Run ans z (.delivering x isOpen (first ++ rest)) out →
      Run ans z (.delivering x isOpen rest) (out ++ first)
  | [], rest, out, h => by
    rw [List.append_nil]
    exact h
  | e :: first, rest, out, h => by
    have hnext := run_dequeue first (h.tail (.mainQueue x isOpen e (first ++ rest)))
    rwa [List.append_assoc] at hnext

/-- **What has run is what the stream delivers**: if `performOnMainThread` was called for what
is heard of a source, a run of its `deliverOnMainThread` sends the messages whose blocks have
begun to run, and the others are those on its queue. -/
theorem mainThread_follows_stream (h : (mainThread α).ReachWhile HasRoom s)
    {es : List (Event α)} (hrun : Run ans (.starting signal) x es)
    (hcalled : heard true es = s.called.map Message.event) :
    ∃ isOpen, Run ans (.starting (.deliverOnMainThread signal))
      (.delivering x isOpen (s.undelivered.map Message.event))
      (s.delivered.map Message.event) := by
  have hcrash : ∀ e ∈ heard true es, e.isCrash = false := by
    intro e he
    rw [hcalled] at he
    obtain ⟨m, -, rfl⟩ := List.mem_map.mp he
    exact m.isCrash_event
  have hnone : (heard true es).filter Event.isCrash = [] := by
    rw [List.filter_eq_nil_iff]
    intro e he
    rw [hcrash e he]
    exact Bool.false_ne_true
  have hall : (heard true es).filter (fun e => !e.isCrash) = heard true es := by
    rw [List.filter_eq_self]
    intro e he
    rw [hcrash e he]
    rfl
  have hqueued := run_enqueue hrun
  rw [hnone, hall, hcalled, (orderly_of_reachWhile h).called_eq, List.map_append] at hqueued
  exact ⟨_, run_dequeue _ hqueued⟩

end Streams

/-- A source that sends what there were three calls for. -/
theorem mainThread_follows_stream_threeCalls : ∃ isOpen,
    Run (id : Empty → Empty) (.starting (.deliverOnMainThread
      (.just [.next (.obj 1), .next (.obj 2), .completed])))
      (.delivering .idle isOpen [.completed]) [.next (.obj 1), .next (.obj 2)] := by
  have hrun : ∃ s, (mainThread ℕ).ReachWhile HasRoom s ∧
      s.called = [.sendNext (.obj 1), .sendNext (.obj 2), .sendCompleted] ∧
      s.undelivered = [.sendCompleted] ∧
      s.delivered = [.sendNext (.obj 1), .sendNext (.obj 2)] :=
    ⟨_, reachWhile_of_mainThreadEvents threeCalls rfl, rfl, rfl, rfl⟩
  obtain ⟨s, hreach, hcalled, hundelivered, hdelivered⟩ := hrun
  have hsource : Run (id : Empty → Empty) (.starting (.just [.next (.obj 1), .next (.obj 2),
      .completed])) .idle [.next (.obj 1), .next (.obj 2), .completed] := .single (.just _)
  obtain ⟨isOpen, hstream⟩ := mainThread_follows_stream hreach hsource (by rw [hcalled]; rfl)
  rw [hundelivered, hdelivered] at hstream
  exact ⟨isOpen, hstream⟩

end LANScan.ReactiveCocoa
