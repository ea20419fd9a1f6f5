import LANScan.ReactiveCocoa.DisposalRuns
import LANScan.ReactiveCocoa.Subscription

/-!
# The calls of a subscriber

What is under way on a subscriber comes to an end: messages that have its lock, disposals, and
additions to its subscriptions.  And no new message comes through a subscription that has been
disposed of.

## Main definitions

* `Subscribing.weight` — the steps that the calls under way have left at most.
* `Subscribing.through` — the messages of a subscription.

## Main results

* `subscriber_calls_end` — **every call ends**, however the calls take turns.
* `no_message_after_disposal` — **what is in flight when a subscription is disposed of is all
  that still comes through it.**
-/

namespace LANScan.ReactiveCocoa

open Reactive

variable {α : Type} {next error completed : Bool} {s s' : Subscribing α}
  {e : SubscribingEvent α} {sub : Subscription} {i : ℕ} {d : Ref}

/-! ### The end of all calls -/

/-- The steps that a call with the lock has left. -/
def Frame.weight : Frame α → ℕ
  | .running => 1
  | .disposing _ _ rest => 2 + rest.length

/-- The steps that the calls under way have left at most, with those of the disposals that
disposing of the subscriptions would take. -/
def Subscribing.weight (s : Subscribing α) : ℕ :=
  (s.frames.map Frame.weight).sum + s.disposals.length + 2 * s.additions.length +
    (s.subscriptions.map fun sub => sub.disposable.contents.length).sum

/-- A step of a call that has begun; a block that runs may return. -/
def IsCall (_ : Subscribing α) : SubscribingEvent α → Prop
  | .proceed => True
  | .step _ => True
  | .lock _ => True
  | _ => False

/-- Disposing of a subscription makes a disposal of each thing that it holds. -/
theorem locked_dispose_weight (hs : s.locked i Subscription.dispose = some s') :
    s'.weight = s.weight := by
  obtain ⟨sub, hsub, hs⟩ := Option.bind_eq_some_iff.mp hs
  obtain rfl := Option.some.inj hs
  have hsum := sum_map_set (fun sub : Subscription => sub.disposable.contents.length)
    sub.dispose.1 hsub
  have hnil : sub.dispose.1.disposable.contents.length = 0 := by
    rw [show sub.dispose.1.disposable = sub.disposable.dispose.1 from rfl,
      RACCompoundDisposable.contents_dispose]
    rfl
  have hheld : sub.dispose.2.length = sub.disposable.contents.length := rfl
  show (s.frames.map Frame.weight).sum +
    (s.disposals ++ sub.dispose.2.map (Disposal.held i)).length + 2 * s.additions.length +
      ((s.subscriptions.set i sub.dispose.1).map fun sub => sub.disposable.contents.length).sum =
    s.weight
  rw [List.length_append, List.length_map, Subscribing.weight]
  omega

/-- What is added is held or disposed of. -/
theorem locked_addDisposable_weight (hs : s.locked i (Subscription.addDisposable d) = some s') :
    s'.weight = s.weight + 1 := by
  obtain ⟨sub, hsub, hs⟩ := Option.bind_eq_some_iff.mp hs
  obtain rfl := Option.some.inj hs
  have hsum := sum_map_set (fun sub : Subscription => sub.disposable.contents.length)
    (sub.addDisposable d).1 hsub
  have hone : (sub.addDisposable d).1.disposable.contents.length + (sub.addDisposable d).2.length =
      sub.disposable.contents.length + 1 := by
    cases hd : sub.disposable.disposed with
    | true =>
      rw [Subscription.addDisposable_of_closed sub hd]
      rfl
    | false =>
      rw [Subscription.addDisposable_of_open sub hd]
      exact (RACCompoundDisposable.addDisposable_spec hd d).2.2.length_eq
  show (s.frames.map Frame.weight).sum +
    (s.disposals ++ (sub.addDisposable d).2.map (Disposal.held i)).length +
      2 * s.additions.length + ((s.subscriptions.set i (sub.addDisposable d).1).map
        fun sub => sub.disposable.contents.length).sum = s.weight + 1
  rw [List.length_append, List.length_map, Subscribing.weight]
  omega

/-- **A step of a call takes weight away.** -/
theorem call_weight (he : IsCall s e) (hs : s.next e = some s') : s'.weight < s.weight := by
  cases e with
  | proceed =>
    rw [Subscribing.next] at hs
    have hweight : ∀ {f frames}, s.frames = f :: frames →
        s.weight = f.weight + (frames.map Frame.weight).sum + s.disposals.length +
          2 * s.additions.length +
            (s.subscriptions.map fun sub => sub.disposable.contents.length).sum := by
      intro f frames hf
      rw [Subscribing.weight, hf, List.map_cons, List.sum_cons]
    cases proceeds_of_proceed hs with
    | returned hf =>
      rw [hweight hf]
      simp only [Subscribing.weight, Frame.weight]
      omega
    | called hf =>
      rw [hweight hf]
      simp only [Subscribing.weight, Frame.weight, List.map_cons, List.sum_cons, List.length_nil]
      omega
    | ended hf =>
      rw [hweight hf]
      simp only [Subscribing.weight, Frame.weight, List.length_nil]
      omega
    | cleared hf =>
      rw [hweight hf]
      simp only [Subscribing.weight, Frame.weight, List.map_cons, List.sum_cons, List.length_cons]
      omega
    | disposed hf hs =>
      rw [hweight hf, locked_dispose_weight hs]
      simp only [Subscribing.weight, Frame.weight, List.map_cons, List.sum_cons, List.length_cons]
      omega
  | step k =>
    obtain ⟨disposal, hdisposal, hs⟩ := Option.bind_eq_some_iff.mp hs
    obtain ⟨hk, -⟩ := List.getElem?_eq_some_iff.mp hdisposal
    have hlength := List.length_eraseIdx_of_lt hk
    have hweight : ({ s with disposals := s.disposals.eraseIdx k } : Subscribing α).weight <
        s.weight := by
      simp only [Subscribing.weight, hlength]
      omega
    cases disposal with
    | subscription i =>
      rw [Subscribing.perform] at hs
      rw [locked_dispose_weight hs]
      exact hweight
    | held i d =>
      refine Nat.lt_of_le_of_lt (Nat.le_of_eq ?_) hweight
      rw [Subscribing.perform] at hs
      obtain ⟨hsubs, hframes, hdisposals, hadditions, -⟩ :=
        disposeHeld_fields { s with disposals := s.disposals.eraseIdx k } i d
      obtain ⟨sub, hsub, hs⟩ := Option.bind_eq_some_iff.mp hs
      obtain rfl := Option.some.inj hs
      have hsum := sum_map_set (fun sub : Subscription => sub.disposable.contents.length)
        { sub with released := sub.released ++ [d] } hsub
      rw [hsubs] at hsum
      simp only [Subscribing.weight, hsubs, hframes, hdisposals, hadditions, List.map_nil,
        List.append_nil]
      exact congrArg _ (Nat.add_right_cancel hsum)
  | lock k =>
    obtain ⟨⟨i, d⟩, hp, hs⟩ := Option.bind_eq_some_iff.mp hs
    obtain ⟨hk, -⟩ := List.getElem?_eq_some_iff.mp hp
    have hlength := List.length_eraseIdx_of_lt hk
    rw [locked_addDisposable_weight hs]
    simp only [Subscribing.weight, hlength]
    omega
  | _ => exact he.elim

/-- A subscription that exists can be disposed of. -/
theorem exists_locked_of_lt (hi : i < s.subscriptions.length)
    (body : Subscription → Subscription × List Ref) : ∃ s', s.locked i body = some s' := by
  rw [Subscribing.locked, List.getElem?_eq_getElem hi]
  exact ⟨_, rfl⟩

/-- **Calls come to an end**: if the blocks that run return, the calls under way take a bounded
number of steps together, and can be brought to their end. -/
theorem subscriber_calls_end (h : (subscribing α next error completed).Reachable s) :
    (∀ n s', (subscribing α next error completed).Steps IsCall s n s' → n ≤ s.weight) ∧
      ∃ n s', (subscribing α next error completed).Steps IsCall s n s' ∧ s'.frames = [] ∧
        s'.disposals = [] ∧ s'.additions = [] := by
  have hlower : ∀ s e s', (subscribing α next error completed).Reachable s → IsCall s e →
      (subscribing α next error completed).Step s e s' → s'.weight < s.weight :=
    fun s e s' _ he hs => call_weight he hs.2
  refine ⟨fun n s' hsteps => ?_, ?_⟩
  · exact Nat.le_trans (Nat.le_add_right _ _) (hsteps.length_le hlower h)
  · refine Machine.Reachable.exists_steps hlower (fun s hs hbusy => ?_) h
    obtain ⟨htidy, hadditions⟩ := tidy_of_reachable hs
    cases hf : s.frames with
    | cons f frames =>
      refine ⟨.proceed, ?_⟩
      have hnext : ∃ s', s.next .proceed = some s' := by
        rw [Subscribing.next, Subscribing.proceed, hf]
        cases f with
        | running => exact ⟨_, rfl⟩
        | disposing m block rest =>
          cases rest with
          | nil =>
            cases block with
            | true => exact ⟨_, rfl⟩
            | false => exact ⟨_, rfl⟩
          | cons d rest =>
            cases d with
            | zero => exact ⟨_, rfl⟩
            | succ i =>
              have hdue : s.Due i := by
                refine Or.inr ⟨.disposing m block ((i + 1) :: rest), ?_, List.mem_cons_self⟩
                rw [hf]
                exact List.mem_cons_self
              refine exists_locked_of_lt (s := { s with
                frames := .disposing m block rest :: frames }) ?_ _
              exact (htidy.due_lt i (Or.inl hdue)).1
      obtain ⟨s', hs'⟩ := hnext
      exact ⟨s', trivial, trivial, hs'⟩
    | nil =>
      cases hd : s.disposals with
      | nil =>
        cases ha : s.additions with
        | nil => exact absurd ⟨hf, hd, ha⟩ hbusy
        | cons p ps =>
          refine ⟨.lock 0, ?_⟩
          have hmem : p ∈ s.additions := by
            rw [ha]
            exact List.mem_cons_self
          obtain ⟨⟨sub, hsub, -⟩, -⟩ := hadditions p hmem
          obtain ⟨i, d⟩ := p
          have hnext : ∃ s', s.next (.lock 0) = some s' := by
            rw [Subscribing.next, ha]
            show ∃ s', ({ s with additions := ps } : Subscribing α).locked i
              (Subscription.addDisposable d) = some s'
            exact exists_locked_of_lt (s := { s with additions := ps })
              (List.getElem?_eq_some_iff.mp hsub).1 _
          obtain ⟨s', hs'⟩ := hnext
          exact ⟨s', trivial, trivial, hs'⟩
      | cons disposal ds =>
        refine ⟨.step 0, ?_⟩
        have hmem : disposal ∈ s.disposals := by
          rw [hd]
          exact List.mem_cons_self
        have hnext : ∃ s', s.next (.step 0) = some s' := by
          rw [Subscribing.next, hd]
          show ∃ s', ({ s with disposals := ds } : Subscribing α).perform disposal = some s'
          cases disposal with
          | subscription i =>
            rw [Subscribing.perform]
            have hi := (htidy.due_lt i (Or.inl (Or.inl hmem))).1
            exact exists_locked_of_lt (s := { s with disposals := ds }) hi _
          | held i d =>
            rw [Subscribing.perform]
            obtain ⟨hsubs, -⟩ := disposeHeld_fields { s with disposals := ds } i d
            refine exists_locked_of_lt ?_ _
            rw [hsubs]
            exact htidy.held_lt i d hmem
        obtain ⟨s', hs'⟩ := hnext
        exact ⟨s', trivial, trivial, hs'⟩

theorem subscriber_calls_end_twoThreads : ∃ s, (subscribing ℕ true false true).Reachable s ∧
    s.frames.length = 2 ∧ s.weight = 8 ∧
    (∀ n s', (subscribing ℕ true false true).Steps IsCall s n s' → n ≤ s.weight) ∧
      ∃ n s', (subscribing ℕ true false true).Steps IsCall s n s' ∧ s'.frames = [] ∧
        s'.disposals = [] ∧ s'.additions = [] := by
  have hrun : ∃ s, (subscribing ℕ true false true).Reachable s ∧ s.frames.length = 2 ∧
      s.weight = 8 :=
    ⟨_, reachable_of_subscribingEvents (twoThreads.take 11) rfl, rfl, rfl⟩
  obtain ⟨s, hreach, hframes, hweight⟩ := hrun
  exact ⟨s, hreach, hframes, hweight, subscriber_calls_end hreach⟩

/-! ### Messages of a subscription that has been disposed of -/

/-- The messages sent through a subscription that have come to the lock or are in flight. -/
def Subscribing.through (s : Subscribing α) (i : ℕ) : List (Message α) :=
  (s.entered.filter fun m => m.1 = some i).map Prod.snd ++
    (s.inFlight.filter fun m => m.via = some i).map InFlight.message

/-- A step leaves a subscription disposed of, with the messages that it had. -/
structure Leaves (i : ℕ) (s s' : Subscribing α) : Prop where
  isDisposed : s'.IsDisposed i
  through : (s'.through i).Perm (s.through i)

theorem GoesOn.leaves {new : ℕ → Ref → Prop} (hs : GoesOn new s s') (h : s.IsDisposed i) :
    Leaves i s s' := by
  obtain ⟨sub, hsub, hd⟩ := h
  obtain ⟨sub', hsub', hgrows⟩ := hs.grows i sub hsub
  refine ⟨⟨sub', hsub', hgrows.closed hd⟩, ?_⟩
  rw [Subscribing.through, hs.entered_eq, hs.inFlight_eq]
  exact .refl _

/-- What is sent comes through subscriptions that have not been disposed of. -/
theorem send_leaves {m : InFlight α} (h : s.IsDisposed i)
    (hopen : ∀ i, m.via = some i → ¬s.IsDisposed i) :
    Leaves i s { s with inFlight := s.inFlight ++ [m] } := by
  refine ⟨h, .of_eq ?_⟩
  have hvia : m.via ≠ some i := fun hvia => hopen i hvia h
  rw [Subscribing.through, List.filter_append]
  simp [Subscribing.through, hvia]

/-- A message that gets the lock was in flight. -/
theorem enter_leaves {k : ℕ} {m : InFlight α} (h : s.IsDisposed i)
    (hm : s.inFlight[k]? = some m) :
    Leaves i s (({ s with inFlight := s.inFlight.eraseIdx k } : Subscribing α).enter m) := by
  obtain ⟨hsubs, hentered, hinFlight, -⟩ :=
    enter_fields ({ s with inFlight := s.inFlight.eraseIdx k } : Subscribing α) m
  obtain ⟨hk, rfl⟩ := List.getElem?_eq_some_iff.mp hm
  refine ⟨?_, ?_⟩
  · rw [Subscribing.IsDisposed, hsubs]
    exact h
  · have hperm : s.inFlight.Perm (s.inFlight[k] :: s.inFlight.eraseIdx k) :=
      (List.getElem_cons_eraseIdx_perm hk).symm
    generalize s.inFlight[k] = m at hperm hentered hinFlight
    have hfilter := ((hperm.filter fun m => m.via = some i).map InFlight.message).symm
    rw [Subscribing.through, Subscribing.through, hentered, hinFlight]
    refine List.Perm.trans ?_ (hfilter.append_left _)
    by_cases hvia : m.via = some i
    · simp [List.filter_append, hvia]
    · simp [List.filter_append, hvia]

/-- **Nothing more comes through a subscription that has been disposed of**, in any step. -/
theorem next_leaves (h : s.IsDisposed i) (hen : s.Enabled e) (hs : s.next e = some s') :
    Leaves i s s' := by
  cases changes_of_next hen hs with
  | goesOn hgoesOn => exact hgoesOn.leaves h
  | adds => exact ⟨h, .refl _⟩
  | locks _ hgoesOn =>
    obtain ⟨hdisposed, hthrough⟩ := hgoesOn.leaves h
    exact ⟨hdisposed, hthrough⟩
  | sends hopen => exact send_leaves h hopen
  | enters hm => exact enter_leaves h hm

/-- **No message after disposal**: from a state where a subscription has been disposed of, the
messages that come through it are those that were in flight there. -/
theorem no_message_after_disposal {n : ℕ}
    (hsteps : (subscribing α next error completed).Steps (fun _ _ => True) s n s')
    (h : s.IsDisposed i) : (s'.through i).Perm (s.through i) := by
  induction hsteps with
  | refl => exact .refl _
  | step _ hs _ ih =>
    obtain ⟨hdisposed, hthrough⟩ := next_leaves h hs.1 hs.2
    exact (ih hdisposed).trans hthrough

/-- A value that is in flight when its subscription is disposed of, and one sent later. -/
theorem no_message_after_disposal_inFlight :
    ∃ s s' : Subscribing ℕ, (subscribing ℕ true false true).Reachable s ∧ s.IsDisposed 0 ∧
      (s'.through 0).Perm (s.through 0) ∧ s.heard.length = 0 ∧ s'.heard.length = 1 := by
  have hrun : ∃ s s₁ s' : Subscribing ℕ, (subscribing ℕ true false true).Reachable s ∧
      s.IsDisposed 0 ∧
      (subscribing ℕ true false true).Step s (.send ⟨2, some 0, .sendNext (.obj 6)⟩) s₁ ∧
      (subscribing ℕ true false true).Step s₁ (.enter 0) s' ∧ s.heard.length = 0 ∧
      s'.heard.length = 1 :=
    ⟨_, _, _, reachable_of_subscribingEvents [.subscribe, .didSubscribeWithDisposable 0,
      .addPurge 0, .send ⟨1, some 0, .sendNext (.obj 5)⟩, .dispose 0] rfl, ⟨_, rfl, rfl⟩,
      ⟨by decide, rfl⟩, ⟨by decide, rfl⟩, rfl, rfl⟩
  obtain ⟨s, s₁, s', hreach, hdisposed, hsend, henter, hbefore, hafter⟩ := hrun
  exact ⟨s, s', hreach, hdisposed, no_message_after_disposal
    (.step trivial hsend (.step trivial henter (.refl s'))) hdisposed, hbefore, hafter⟩

end LANScan.ReactiveCocoa
