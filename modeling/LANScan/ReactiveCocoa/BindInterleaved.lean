import LANScan.ReactiveCocoa.Bind
import LANScan.ReactiveCocoa.Upstream

/-!
# The messages of `bind:` in any order

The subscription block of `bind:` once more with the subscriptions that it makes, now with the
messages of one step handled one by one, and those of other subscriptions between them.  Then a
value of the source may be mapped before, after or between the messages of the signals before
it, and the source may complete at any time.

## Main definitions

* `Binding`, `flattenMappingInterleaved` — the subscriptions, and what the handlers got of them.

## Main results

* `bind_delivers_every_interleaving` — **the order makes no difference** to a `flattenMap` that
  has an outcome.
-/

namespace LANScan.ReactiveCocoa

open Reactive

variable {Q : Type} {A : Q → Type} {α : Type}

/-! ### The subscriptions -/

/-- The subscriptions to the source and to the signals, and what the handlers got. -/
structure Binding (Q : Type) (A : Q → Type) (α : Type) where
  source : Upstream Q A α
  inners : List (Upstream Q A α)
  events : List (BindEvent α)

/-- What a message of the source is for the handlers, `signal` what a value is mapped to. -/
def sourceEvent (signal : Ref) (checked : Bool) : Message α → BindEvent α
  | .sendNext _ => .next signal checked
  | .sendError => .error
  | .sendCompleted => .completed

/-- The subscriptions that a message of the source adds. -/
def addedUpstreams (f : Value α → Signal Q A α) : Message α → List (Upstream Q A α)
  | .sendNext v => [.starting (f v)]
  | _ => []

namespace Binding

/-- The disposable of `bind:` has been disposed of. -/
def disposed (source : Ref) (s : Binding Q A α) : Bool :=
  (Bind.run source s.events).compoundDisposable.disposed

/-- What can happen.  The signal with number `i` is the object `object i`, and what is disposed
of may be dropped. -/
inductive Moves (ans : (q : Q) → A q) (f : Value α → Signal Q A α) (object : ℕ → Ref)
    (source : Ref) (s : Binding Q A α) : Binding Q A α → Prop
  | sourceSends {u : Upstream Q A α} (h : s.source.Sends ans u) :
    Moves ans f object source s { s with source := u }
  | innerSends (i : ℕ) {u u' : Upstream Q A α} (hi : s.inners[i]? = some u) (h : u.Sends ans u') :
    Moves ans f object source s { s with inners := s.inners.set i u' }
  | sourceHandles (checked : Bool) {m : Message α} {u : Upstream Q A α} (h : s.source.Handles m u) :
    Moves ans f object source s
      { source := u
        inners :=
          if s.disposed source = true ∧ checked = false then s.inners
          else s.inners ++ addedUpstreams f m
        events := s.events ++ [sourceEvent (object (signalsOf s.events).length) checked m] }
  | innerHandles (i : ℕ) {m : Message α} {u u' : Upstream Q A α} (hi : s.inners[i]? = some u)
    (h : u.Handles m u') :
    Moves ans f object source s
      { s with inners := s.inners.set i u', events := s.events ++ [.inner i m] }
  | sourceDrops {m : Message α} {u : Upstream Q A α} (hdisposed : s.disposed source = true)
    (h : s.source.Handles m u) : Moves ans f object source s { s with source := u }
  | innerDrops (i : ℕ) {m : Message α} {u u' : Upstream Q A α}
    (hdisposed : s.disposed source = true) (hi : s.inners[i]? = some u) (h : u.Handles m u') :
    Moves ans f object source s { s with inners := s.inners.set i u' }

end Binding

/-- The subscription block of `flattenMap:` at work. -/
def flattenMappingInterleaved (ans : (q : Q) → A q) (signal : Signal Q A α)
    (f : Value α → Signal Q A α) (object : ℕ → Ref) (source : Ref) :
    Machine (Binding Q A α) Unit where
  init := ⟨.starting signal, [], []⟩
  Step s _ s' := s.Moves ans f object source s'

/-! ### What is sent -/

variable {ans : (q : Q) → A q} {signal : Signal Q A α} {f : Value α → Signal Q A α}
  {object : ℕ → Ref} {source : Ref} {s s' : Binding Q A α} {os : Outcome α}

/-- How far the source and the stream of its value have come: what has been handled of them, and
that this decides what has been sent. -/
inductive Binding.Delivers (ans : (q : Q) → A q) (f : Value α → Signal Q A α) (os : Outcome α)
    (s : Binding Q A α) : Prop
  | waiting {sl : List (Event α)}
    (hsource : Progress ans os.events s.source.sub s.source.isOpen
      (sl ++ s.source.pending.map Message.event))
    (hsilent : ∀ e ∈ sl, e = .completed) (hinners : s.inners = [])
    (hmerge : Merge.run s.events = ⟨!sl.any Event.terminal, [], sl⟩)
  | mapped {v : Value α} {c : Bool} {o : Outcome α} {sl sy : List (Event α)} {u : Upstream Q A α}
    (hos : os = .settled (some v) c) (ho : (f v).outcome ans = some o)
    (hsource : Progress ans os.events s.source.sub s.source.isOpen
      (sl ++ s.source.pending.map Message.event))
    (hne : sl ≠ []) (hinners : s.inners = [u])
    (hinner : Progress ans o.events u.sub u.isOpen (sy ++ u.pending.map Message.event))
    (hmerge : Merge.run s.events =
      ⟨!sl.any Event.terminal, [!sy.any Event.terminal], bindOut sl sy⟩)

/-- As long as nothing terminal has been sent, nothing has been disposed of. -/
theorem disposed_of_stillOpen (hnodup : (source :: signalsOf s.events).Nodup)
    (hopen : stillOpen true (Merge.run s.events).sent = true) : s.disposed source = false := by
  rcases alike_or_ended source s.events hnodup with ⟨halike, -⟩ | hended
  · exact halike.disposed_eq
  · exact absurd (hopen.symm.trans hended.stillOpen_right) (by decide)

theorem stillOpen_of_disposed (hnodup : (source :: signalsOf s.events).Nodup)
    (hdisposed : s.disposed source = true) : stillOpen true (Merge.run s.events).sent = false := by
  cases hopen : stillOpen true (Merge.run s.events).sent with
  | false => rfl
  | true => exact absurd ((disposed_of_stillOpen hnodup hopen).symm.trans hdisposed) (by decide)

theorem eq_of_getElem?_singleton {β : Type} {x y : β} {i : ℕ} (h : [x][i]? = some y) :
    i = 0 ∧ x = y := by
  cases i with
  | zero => exact ⟨rfl, Option.some.inj h⟩
  | succ i => cases h

/-- A message of the source is handled. -/
theorem Binding.Delivers.sourceHandles (h : s.Delivers ans f os)
    (hf : ∀ v c, os = .settled (some v) c → ∃ o, (f v).outcome ans = some o)
    (hnodup : (source :: signalsOf s.events).Nodup) (signal : Ref) (checked : Bool)
    {m : Message α} {u : Upstream Q A α} (hu : s.source.Handles m u) :
    ({ source := u
       inners :=
        if s.disposed source = true ∧ checked = false then s.inners
        else s.inners ++ addedUpstreams f m
       events := s.events ++ [sourceEvent signal checked m] } : Binding Q A α).Delivers
      ans f os := by
  cases h with
  | @waiting sl hsource hsilent hinners hmerge =>
    obtain ⟨hprogress, hnext⟩ := hu.progress hsource
    rcases events_snoc hnext with ⟨rfl, v, hm, c, hos⟩ | ⟨hm, hterminal⟩ | ⟨-, k, hm, -⟩
    · -- the value comes first, while nothing has been sent
      have hopen : s.disposed source = false :=
        disposed_of_stillOpen hnodup (by rw [hmerge]; rfl)
      obtain ⟨o, ho⟩ := hf v c hos
      cases m with
      | sendNext x =>
        obtain rfl := Event.next.inj hm
        have hinner : Progress ans o.events (Upstream.starting (f x)).sub
            (Upstream.starting (f x)).isOpen
            ([] ++ (Upstream.starting (f x)).pending.map Message.event) :=
          .start (sends_of_outcome ans _ ho)
        refine .mapped hos ho hprogress (List.cons_ne_nil _ _) ?_ hinner ?_
        · rw [if_neg (fun hif => absurd (hopen.symm.trans hif.1) (by decide)), hinners]
          rfl
        · rw [merge_run_concat, hmerge]
          rfl
      | sendError => cases hm
      | sendCompleted => cases hm
    · -- the source completes without a value
      cases m with
      | sendNext x => cases hm
      | sendError => cases hm
      | sendCompleted =>
        refine .waiting hprogress ?_ ?_ ?_
        · intro e he
          rcases List.mem_append.mp he with he | he
          · exact hsilent e he
          · exact List.mem_singleton.mp he
        · show (if _ then s.inners else s.inners ++ []) = []
          rw [List.append_nil, ite_self, hinners]
        · rw [merge_run_concat, hmerge]
          simp [sourceEvent, Merge.handle, Merge.allClosed, sourceOut, Message.event]
    · cases m with
      | sendNext x => cases hm
      | sendError => cases hm
      | sendCompleted => cases hm
  | @mapped v c o sl sy u' hos ho hsource hne hinners hinner hmerge =>
    obtain ⟨hprogress, hnext⟩ := hu.progress hsource
    rcases events_snoc hnext with ⟨hnil, -⟩ | ⟨hm, hterminal⟩ | ⟨hnil, -⟩
    · exact absurd hnil hne
    · -- after its value the source can only complete
      cases m with
      | sendNext x => cases hm
      | sendError => cases hm
      | sendCompleted =>
        refine .mapped hos ho hprogress (by simp) ?_ hinner ?_
        · show (if _ then s.inners else s.inners ++ []) = [u']
          rw [List.append_nil, ite_self, hinners]
        · rw [merge_run_concat, hmerge, bindOut_source ⟨_, _, hos⟩ hnext]
          simp [sourceEvent, Merge.handle, Merge.allClosed, Message.event]
    · exact absurd hnil hne

/-- A message of the stream of a value is handled. -/
theorem Binding.Delivers.innerHandles (h : s.Delivers ans f os) {i : ℕ} {m : Message α}
    {u u' : Upstream Q A α} (hi : s.inners[i]? = some u) (hu : u.Handles m u') :
    ({ s with inners := s.inners.set i u', events := s.events ++ [.inner i m] } :
      Binding Q A α).Delivers ans f os := by
  cases h with
  | waiting hsource hsilent hinners hmerge =>
    rw [hinners] at hi
    cases hi
  | @mapped v c o sl sy x hos ho hsource hne hinners hinner hmerge =>
    rw [hinners] at hi
    obtain ⟨rfl, rfl⟩ := eq_of_getElem?_singleton hi
    obtain ⟨hprogress, hnext⟩ := hu.progress hinner
    refine .mapped hos ho hsource hne (u := u') ?_ hprogress ?_
    · rw [hinners]
      rfl
    · rw [merge_run_concat, hmerge, bindOut_inner hnext]
      simp [Merge.handle, Merge.allClosed, List.any_append]

/-- **Every step delivers more of the outcome**, or none. -/
theorem Binding.Delivers.moves (h : s.Delivers ans f os)
    (hf : ∀ v c, os = .settled (some v) c → ∃ o, (f v).outcome ans = some o)
    (hnodup : (source :: signalsOf s.events).Nodup) (hs : s.Moves ans f object source s') :
    s'.Delivers ans f os := by
  cases hs with
  | sourceSends hu =>
    cases h with
    | waiting hsource hsilent hinners hmerge =>
      exact .waiting (hu.progress hsource) hsilent hinners hmerge
    | mapped hos ho hsource hne hinners hinner hmerge =>
      exact .mapped hos ho (hu.progress hsource) hne hinners hinner hmerge
  | @innerSends i u u' hi hu =>
    cases h with
    | waiting hsource hsilent hinners hmerge =>
      rw [hinners] at hi
      cases hi
    | mapped hos ho hsource hne hinners hinner hmerge =>
      rw [hinners] at hi
      obtain ⟨rfl, rfl⟩ := eq_of_getElem?_singleton hi
      refine .mapped hos ho hsource hne (u := u') ?_ (hu.progress hinner) hmerge
      show s.inners.set 0 u' = [u']
      rw [hinners]
      rfl
  | sourceHandles checked hu => exact h.sourceHandles hf hnodup _ checked hu
  | innerHandles i hi hu => exact h.innerHandles hi hu
  | sourceDrops hdisposed hu =>
    -- once it is disposed of, there is nothing to drop
    have hended := stillOpen_of_disposed hnodup hdisposed
    cases h with
    | waiting hsource hsilent hinners hmerge =>
      rw [hmerge, stillOpen, hu.not_ended hsource] at hended
      cases hended
    | mapped hos ho hsource hne hinners hinner hmerge =>
      rw [hmerge, stillOpen_bindOut ((List.prefix_append _ _).trans hinner.isPrefix),
        hu.not_ended hsource] at hended
      cases hended
  | innerDrops i hdisposed hi hu =>
    have hended := stillOpen_of_disposed hnodup hdisposed
    cases h with
    | waiting hsource hsilent hinners hmerge =>
      rw [hinners] at hi
      cases hi
    | mapped hos ho hsource hne hinners hinner hmerge =>
      rw [hinners] at hi
      obtain ⟨rfl, rfl⟩ := eq_of_getElem?_singleton hi
      rw [hmerge, stillOpen_bindOut ((List.prefix_append _ _).trans hinner.isPrefix),
        hu.not_ended hinner, Bool.and_false] at hended
      cases hended

theorem Binding.Moves.events_eq (hs : s.Moves ans f object source s') :
    ∃ es, s'.events = s.events ++ es := by
  cases hs with
  | sourceSends => exact ⟨[], (List.append_nil _).symm⟩
  | innerSends => exact ⟨[], (List.append_nil _).symm⟩
  | sourceHandles => exact ⟨_, rfl⟩
  | innerHandles => exact ⟨_, rfl⟩
  | sourceDrops => exact ⟨[], (List.append_nil _).symm⟩
  | innerDrops => exact ⟨[], (List.append_nil _).symm⟩

theorem binding_delivers_of_reachable (hos : signal.outcome ans = some os)
    (hf : ∀ v c, os = .settled (some v) c → ∃ o, (f v).outcome ans = some o)
    (h : (flattenMappingInterleaved ans signal f object source).Reachable s)
    (hnodup : (source :: signalsOf s.events).Nodup) : s.Delivers ans f os := by
  refine h.invariant (I := fun s => (source :: signalsOf s.events).Nodup →
    s.Delivers ans f os) ?_ ?_ hnodup
  · intro _
    have hsource : Progress ans os.events (Upstream.starting signal).sub
        (Upstream.starting signal).isOpen
        ([] ++ (Upstream.starting signal).pending.map Message.event) :=
      .start (sends_of_outcome ans _ hos)
    exact .waiting hsource (List.forall_mem_nil _) rfl rfl
  · intro s e s' hi hs hnodup
    have hs : s.Moves ans f object source s' := hs
    obtain ⟨es, hes⟩ := hs.events_eq
    have hbefore : (source :: signalsOf s.events).Nodup := by
      rw [hes, signalsOf_append] at hnodup
      exact hnodup.sublist ((List.sublist_append_left ..).cons_cons source)
    exact (hi hbefore).moves hf hbefore hs

/-- What the handlers have sent is a beginning of the outcome, and all of it at the end. -/
theorem Binding.Delivers.sent {o : Outcome α} (h : s.Delivers ans f os)
    (ho : (os.bind fun v => (f v).outcome ans) = some o) :
    (Merge.run s.events).sent <+: o.events ∧
      (s.source.IsDone → (∀ u ∈ s.inners, u.IsDone) → (Merge.run s.events).sent = o.events) := by
  cases h with
  | @waiting sl hsource hsilent hinners hmerge =>
    have hbegins : sl <+: os.events := (List.prefix_append _ _).trans hsource.isPrefix
    rw [hmerge]
    cases os with
    | crashed k =>
      obtain rfl := Option.some.inj ho
      exact ⟨hbegins, fun hdone _ => hdone.sent_eq hsource⟩
    | settled w c =>
      cases w with
      | none =>
        obtain rfl := Option.some.inj ho
        exact ⟨hbegins, fun hdone _ => hdone.sent_eq hsource⟩
      | some v =>
        -- the value has not come, so nothing has
        have hnil : sl = [] := by
          cases sl with
          | nil => rfl
          | cons e sl =>
            obtain ⟨rest, heq⟩ := hbegins
            have hhead : e = .next v := (List.cons.inj heq).1
            rw [hsilent e List.mem_cons_self] at hhead
            cases hhead
        subst hnil
        refine ⟨List.nil_prefix, fun hdone _ => ?_⟩
        have hevents := hdone.sent_eq hsource
        cases hevents
  | @mapped v c p sl sy u hos hp hsource hne hinners hinner hmerge =>
    subst hos
    obtain ⟨p', hp', rfl⟩ := Option.map_eq_some_iff.mp ho
    obtain rfl := Option.some.inj (hp.symm.trans hp')
    rw [hmerge]
    refine ⟨bindOut_isPrefix ((List.prefix_append _ _).trans hsource.isPrefix)
      ((List.prefix_append _ _).trans hinner.isPrefix), fun hdone hinners' => ?_⟩
    have hdone' : u.IsDone := hinners' u (by rw [hinners]; exact List.mem_singleton_self u)
    show bindOut sl sy = _
    rw [hdone.sent_eq hsource, hdone'.sent_eq hinner, bindOut_events]

/-- **The order makes no difference**: if a `flattenMap` has an outcome, then however the messages
of its source and of the signals are interleaved, and if the source and the signals are all
different, the subscriber hears a beginning of the outcome, and all of it once nothing is
outstanding or the disposable of `bind:` has been disposed of. -/
theorem bind_delivers_every_interleaving {o : Outcome α}
    (ho : (signal.flattenMap f).outcome ans = some o)
    (h : (flattenMappingInterleaved ans signal f object source).Reachable s)
    (hnodup : (source :: signalsOf s.events).Nodup) :
    heard true (Bind.run source s.events).sent <+: o.events ∧
      (s.disposed source = true ∨ (s.source.IsDone ∧ ∀ u ∈ s.inners, u.IsDone) →
        heard true (Bind.run source s.events).sent = o.events) := by
  obtain ⟨os, hos, ho⟩ := Option.bind_eq_some_iff.mp ho
  have hf : ∀ v c, os = .settled (some v) c → ∃ o, (f v).outcome ans = some o := by
    rintro v c rfl
    obtain ⟨p, hp, -⟩ := Option.map_eq_some_iff.mp ho
    exact ⟨p, hp⟩
  have hdelivers := binding_delivers_of_reachable hos hf h hnodup
  obtain ⟨hbegins, hall⟩ := hdelivers.sent ho
  rw [heard_run_eq hnodup, heard_of_isPrefix hbegins]
  refine ⟨hbegins, ?_⟩
  rintro (hdisposed | ⟨hsource, hinners⟩)
  · have hended := stillOpen_of_disposed hnodup hdisposed
    rw [← heard_eq_events rfl hended hbegins, heard_of_isPrefix hbegins]
  · exact hall hsource hinners

/-- A signal of one value. -/
def seven : Signal Empty (fun _ => Empty) ℕ := .ret (.obj 7)

/-- The source completes between the messages of the signal that its value is mapped to. -/
theorem reachable_between : ∃ s,
    (flattenMappingInterleaved id seven .ret (· + 1) 0).Reachable s ∧
      (0 :: signalsOf s.events).Nodup ∧ s.disposed 0 = true := by
  have hstep : Step id (.starting seven) .idle
      ([.sendNext (.obj 7), .sendCompleted].map Message.event) := .just _
  have hinit : (flattenMappingInterleaved id seven .ret (· + 1) 0).Reachable _ := .init
  have hmapped := (hinit.step (e := ()) (Binding.Moves.sourceSends ⟨hstep⟩)).step (e := ())
    (Binding.Moves.sourceHandles false ⟨rfl⟩)
  have hsent := (hmapped.step (e := ()) (Binding.Moves.innerSends 0 rfl ⟨hstep⟩)).step (e := ())
    (Binding.Moves.innerHandles 0 rfl ⟨rfl⟩)
  exact ⟨_, (hsent.step (e := ()) (Binding.Moves.sourceHandles false ⟨rfl⟩)).step (e := ())
    (Binding.Moves.innerHandles 0 rfl ⟨rfl⟩), by decide, rfl⟩

theorem bind_delivers_every_interleaving_between : ∃ s,
    (flattenMappingInterleaved id seven .ret (· + 1) 0).Reachable s ∧
      heard true (Bind.run 0 s.events).sent = [.next (.obj 7), .completed] := by
  have houtcome : (seven.flattenMap .ret).outcome id =
      some (.settled (some (.obj 7)) true) := rfl
  obtain ⟨s, hreach, hnodup, hdisposed⟩ := reachable_between
  exact ⟨s, hreach,
    (bind_delivers_every_interleaving houtcome hreach hnodup).2 (Or.inl hdisposed)⟩

end LANScan.ReactiveCocoa
