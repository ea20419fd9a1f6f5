import LANScan.Reactive.Outcome

/-!
# The outcome of a signal is what every interleaving sends

One lemma for each way of building a stream: if the parts send their outcomes,
the whole sends the outcome computed from them.  Each is an induction on the run
of the whole.  Its invariant says how far every part has got (`Progress`), and
that what the whole has sent so far is a function of that and of nothing else
about the order of events.

## Main results

* `sends_combining`, `sends_binding`, `sends_forwarding`, `sends_delivering`.
* `sends_of_outcome` — **adequacy.**
-/

namespace Reactive

variable {Q : Type} {A : Q → Type} {α : Type} {ans : (q : Q) → A q}

/-! ### The events of an outcome, one at a time -/

/-- The last of the first events of an outcome: a value comes first, a completion
comes after no other terminal event, a crash comes alone. -/
theorem events_snoc {o : Outcome α} {sent : List (Event α)} {e : Event α}
    (h : sent ++ [e] <+: o.events) :
    (sent = [] ∧ ∃ v, e = .next v ∧ ∃ c, o = .settled (some v) c) ∨
      (e = .completed ∧ sent.any Event.terminal = false) ∨
      (sent = [] ∧ ∃ c, e = .crash c ∧ o = .crashed c) := by
  obtain ⟨rest, h⟩ := h
  rcases o with ⟨_ | v, _ | _⟩ | c <;> rcases sent with _ | ⟨u, _ | ⟨u', sent⟩⟩ <;>
    simp [Outcome.events] at h
  · simp [← h.1]
  · simp [← h.1]
  · simp [← h.1]
  · simp [h.1, h.2.1]
  · simp [← h.1]

/-- A function of the events sent so far that grows by `out e` with each event
`e` grows by `out` of all of them with several. -/
theorem flatMap_of_snoc {β : Type} {W : List (Event α)} {F : List (Event α) → List β}
    {out : Event α → List β}
    (hF : ∀ sent e, sent ++ [e] <+: W → F (sent ++ [e]) = F sent ++ out e) :
    ∀ (es sent : List (Event α)), sent ++ es <+: W → F (sent ++ es) = F sent ++ es.flatMap out := by
  intro es
  induction es with
  | nil => intro sent _; simp
  | cons e es ih =>
    intro sent h
    have h' : (sent ++ [e]) ++ es <+: W := by simpa using h
    have he : sent ++ [e] <+: W := (List.prefix_append _ _).trans h'
    calc F (sent ++ e :: es) = F ((sent ++ [e]) ++ es) := by simp
      _ = F (sent ++ [e]) ++ es.flatMap out := ih _ h'
      _ = F sent ++ (e :: es).flatMap out := by rw [hF sent e he]; simp

theorem latest_append (es es' : List (Event α)) : ∀ v : Option (Value α),
    latest v (es ++ es') = latest (latest v es) es' := by
  induction es with
  | nil => intro v; rfl
  | cons e es ih =>
    intro v
    cases e <;> simp only [List.cons_append, latest, ih]

/-! ### Combining two streams -/

/-- What a `combineLatestWith` has sent when its sides have sent `sl` and `sr`. -/
def pairOut (sl sr : List (Event α)) : List (Event α) :=
  ((latest none sl).bind fun v => (latest none sr).map fun w => .next (pairUp v w)).toList
    ++ if sl.any Event.terminal && sr.any Event.terminal then [.completed] else []

theorem pairOut_events (v w : Option (Value α)) (c d : Bool) :
    pairOut (Outcome.settled v c).events (Outcome.settled w d).events =
      (Outcome.settled (v.bind fun a => w.map (pairUp a)) (c && d)).events := by
  rcases v with _ | v <;> rcases w with _ | w <;> cases c <;> cases d <;> rfl

/-- The left side sends `es` more. -/
theorem pairOut_left {v : Option (Value α)} {c : Bool} {sl es : List (Event α)}
    (h : sl ++ es <+: (Outcome.settled v c).events) (sr : List (Event α)) :
    pairOut (sl ++ es) sr = pairOut sl sr
      ++ es.flatMap (sideOut pairUp (latest none sr) (!sr.any Event.terminal)) := by
  refine flatMap_of_snoc (F := fun sl => pairOut sl sr) ?_ es sl h
  intro sent e he
  rcases events_snoc he with ⟨rfl, a, rfl, -⟩ | ⟨rfl, hterm⟩ | ⟨-, k, -, hk⟩
  · cases hr : latest none sr <;> simp [pairOut, latest, sideOut, hr]
  · cases hr : sr.any Event.terminal <;>
      simp [pairOut, latest_append, latest, sideOut, hterm, hr]
  · cases hk

/-- The right side sends `es` more. -/
theorem pairOut_right {w : Option (Value α)} {d : Bool} {sr es : List (Event α)}
    (h : sr ++ es <+: (Outcome.settled w d).events) (sl : List (Event α)) :
    pairOut sl (sr ++ es) = pairOut sl sr
      ++ es.flatMap (sideOut (fun v w => pairUp w v) (latest none sl)
          (!sl.any Event.terminal)) := by
  refine flatMap_of_snoc (F := fun sr => pairOut sl sr) ?_ es sr h
  intro sent e he
  rcases events_snoc he with ⟨rfl, a, rfl, -⟩ | ⟨rfl, hterm⟩ | ⟨-, k, -, hk⟩
  · cases hl : latest none sl <;> simp [pairOut, latest, sideOut, hl]
  · cases hl : sl.any Event.terminal <;>
      simp [pairOut, latest_append, latest, sideOut, hterm, hl]
  · cases hk

/-- **A pair of settled streams sends the pair of their values.** -/
theorem sends_combining {l r : Sub Q A α} {v w : Option (Value α)} {c d : Bool}
    (hl : Sends ans l (Outcome.settled v c).events)
    (hr : Sends ans r (Outcome.settled w d).events) :
    Sends ans (.combining l true none r true none)
      (Outcome.settled (v.bind fun a => w.map (pairUp a)) (c && d)).events := by
  intro z sent hrun
  have inv : ∃ l' lo sl r' ro sr, z = .combining l' lo (latest none sl) r' ro (latest none sr) ∧
      Progress ans (Outcome.settled v c).events l' lo sl ∧
      Progress ans (Outcome.settled w d).events r' ro sr ∧ sent = pairOut sl sr := by
    induction hrun with
    | refl => exact ⟨l, true, [], r, true, [], rfl, .start hl, .start hr, rfl⟩
    | tail _ hs ih =>
      obtain ⟨l', lo, sl, r', ro, sr, rfl, hpl, hpr, rfl⟩ := ih
      cases hs with
      | left hs =>
        obtain ⟨hheard, hp⟩ := hpl.step hs
        refine ⟨_, _, _, r', ro, sr, ?_, hp, hpr, ?_⟩
        · rw [hheard, latest_append]
        · rw [hheard, pairOut_left hp.isPrefix, hpr.flag]
      | right hs =>
        obtain ⟨hheard, hp⟩ := hpr.step hs
        refine ⟨l', lo, sl, _, _, _, ?_, hpl, hp, ?_⟩
        · rw [hheard, latest_append]
        · rw [hheard, pairOut_right hp.isPrefix, hpl.flag]
  obtain ⟨l', lo, sl, r', ro, sr, rfl, hpl, hpr, rfl⟩ := inv
  rw [← pairOut_events]
  constructor
  · obtain ⟨us, hus⟩ := hpl.isPrefix
    obtain ⟨vs, hvs⟩ := hpr.isPrefix
    rw [← hus, pairOut_left ⟨[], by rw [hus, List.append_nil]⟩, ← hvs,
      pairOut_right ⟨[], by rw [hvs, List.append_nil]⟩, List.append_assoc]
    exact List.prefix_append _ _
  · intro hq
    cases hq with
    | combining hql hqr => rw [hpl.quiet hql, hpr.quiet hqr]

/-! ### Mapping the values of a stream to streams -/

/-- What a `flattenMap` can do: let its source move, or one of the streams. -/
theorem step_binding {f : Value α → Signal Q A α} {x z : Sub Q A α} {b : Bool}
    {ys : List (Sub Q A α × Bool)} {out : List (Event α)}
    (h : Step ans (.binding f x b ys) z out) :
    (∃ x' es, Step ans x x' es ∧
      z = .binding f x' (stillOpen b es) (ys ++ added f (heard b es)) ∧
      out = (heard b es).flatMap (sourceOut (allClosed (ys ++ added f (heard b es))))) ∨
    (∃ us y c vs y' es, ys = us ++ (y, c) :: vs ∧ Step ans y y' es ∧
      z = .binding f x b (us ++ (y', stillOpen c es) :: vs) ∧
      out = (heard c es).flatMap (innerOut (!b && allClosed (us ++ vs)))) := by
  cases h with
  | source h => exact Or.inl ⟨_, _, h, rfl, rfl⟩
  | inner h => exact Or.inr ⟨_, _, _, _, _, _, rfl, h, rfl, rfl⟩

/-- Events without a value add no stream, and pass a `flattenMap` that has none. -/
theorem source_silent {f : Value α → Signal Q A α} : ∀ (es : List (Event α)),
    (∀ e ∈ es, e = .completed ∨ ∃ k, e = .crash k) →
      added (Q := Q) (A := A) f es = [] ∧ es.flatMap (sourceOut true) = es := by
  intro es
  induction es with
  | nil => intro _; exact ⟨rfl, rfl⟩
  | cons e es ih =>
    intro h
    obtain ⟨hadd, hout⟩ := ih fun e he => h e (List.mem_cons_of_mem _ he)
    rcases h e List.mem_cons_self with rfl | ⟨k, rfl⟩
    · exact ⟨hadd, by simp [sourceOut, hout]⟩
    · exact ⟨hadd, by simp [sourceOut, hout]⟩

/-- **A `flattenMap` whose source sends no value** sends what its source does. -/
theorem sends_binding_silent {f : Value α → Signal Q A α} {x : Sub Q A α} {o : Outcome α}
    (ho : ∀ e ∈ o.events, e = .completed ∨ ∃ k, e = .crash k) (hx : Sends ans x o.events) :
    Sends ans (.binding f x true []) o.events := by
  intro z sent hrun
  have inv : ∃ x' b, z = .binding f x' b [] ∧ Progress ans o.events x' b sent := by
    induction hrun with
    | refl => exact ⟨x, true, rfl, .start hx⟩
    | tail _ hs ih =>
      obtain ⟨x', b, rfl, hp⟩ := ih
      rcases step_binding hs with ⟨x'', es, hx', rfl, rfl⟩ | ⟨us, y, c, vs, _, _, hnil, _⟩
      · obtain ⟨hheard, hp'⟩ := hp.step hx'
        obtain ⟨hadd, hout⟩ := source_silent (Q := Q) (A := A) (f := f) es fun e he =>
          ho e (hp'.isPrefix.subset (List.mem_append_right _ he))
        rw [hheard, hadd]
        exact ⟨x'', stillOpen b es, rfl, by simpa [allClosed, hout] using hp'⟩
      · simp at hnil
  obtain ⟨x', b, rfl, hp⟩ := inv
  refine ⟨hp.isPrefix, fun hq => ?_⟩
  cases hq with
  | binding hqx _ => exact hp.quiet hqx

/-- What a `flattenMap` has sent when its source has sent `sent` and the one
stream it subscribed to has sent `sy`. -/
def bindOut (sent sy : List (Event α)) : List (Event α) :=
  (sy.filter fun e => !e.isCompleted)
    ++ if sent.any Event.terminal && sy.any Event.terminal then [.completed] else []

theorem bindOut_source {o : Outcome α} {sent es : List (Event α)}
    (ho : ∃ v c, o = .settled v c) (h : sent ++ es <+: o.events) (sy : List (Event α)) :
    bindOut (sent ++ es) sy = bindOut sent sy ++ es.flatMap (sourceOut (sy.any Event.terminal)) := by
  obtain ⟨v, c, rfl⟩ := ho
  refine flatMap_of_snoc (F := fun sent => bindOut sent sy) ?_ es sent h
  intro sent e he
  rcases events_snoc he with ⟨rfl, a, rfl, -⟩ | ⟨rfl, hterm⟩ | ⟨-, k, -, hk⟩
  · simp [bindOut, sourceOut]
  · cases hy : sy.any Event.terminal <;> simp [bindOut, sourceOut, hterm, hy]
  · cases hk

theorem bindOut_inner {o : Outcome α} {sy es : List (Event α)}
    (h : sy ++ es <+: o.events) (sent : List (Event α)) :
    bindOut sent (sy ++ es) = bindOut sent sy ++ es.flatMap (innerOut (sent.any Event.terminal)) := by
  refine flatMap_of_snoc (F := fun sy => bindOut sent sy) ?_ es sy h
  intro sy e he
  rcases events_snoc he with ⟨rfl, a, rfl, -⟩ | ⟨rfl, hterm⟩ | ⟨rfl, k, rfl, -⟩
  · simp [bindOut, innerOut]
  · cases hs : sent.any Event.terminal <;> simp [bindOut, innerOut, hterm, hs]
  · simp [bindOut, innerOut]

theorem bindOut_events (v : Value α) (c : Bool) (o : Outcome α) :
    bindOut (Outcome.settled (some v) c).events o.events = (o.andThen c).events := by
  rcases o with ⟨_ | w, _ | _⟩ | k <;> cases c <;> rfl

/-- **A `flattenMap` whose source sends a value** sends what the stream of that
value does, and completes when both have. -/
theorem sends_binding {f : Value α → Signal Q A α} {x : Sub Q A α} {v : Value α} {c : Bool}
    {o : Outcome α} (hx : Sends ans x (Outcome.settled (some v) c).events)
    (hf : Sends ans (.starting (f v)) o.events) :
    Sends ans (.binding f x true []) (o.andThen c).events := by
  intro z sent hrun
  have inv : ∃ x' b sx, Progress ans (Outcome.settled (some v) c).events x' b sx ∧
      ((sx = [] ∧ z = .binding f x' b [] ∧ sent = []) ∨
        ∃ y d sy, z = .binding f x' b [(y, d)] ∧ sx ≠ [] ∧ Progress ans o.events y d sy ∧
          sent = bindOut sx sy) := by
    induction hrun with
    | refl => exact ⟨x, true, [], .start hx, Or.inl ⟨rfl, rfl, rfl⟩⟩
    | tail _ hs ih =>
      obtain ⟨x', b, sx, hp, ⟨rfl, rfl, rfl⟩ | ⟨y, d, sy, rfl, hne, hpy, rfl⟩⟩ := ih
      · -- no value yet: only the source can move
        rcases step_binding hs with ⟨x'', es, hx', rfl, rfl⟩ | ⟨us, y, c, vs, _, _, hnil, _⟩
        · obtain ⟨hheard, hp'⟩ := hp.step hx'
          rw [hheard]
          rw [List.nil_append] at hp'
          refine ⟨x'', stillOpen b es, es, hp', ?_⟩
          cases es with
          | nil => exact Or.inl ⟨rfl, rfl, rfl⟩
          | cons e es =>
            -- the value comes first, and its stream is subscribed to
            have he : e = .next v ∧ (es = [] ∨ es = [.completed]) := by
              obtain ⟨rest, hrest⟩ := hp'.isPrefix
              cases c <;> cases es <;> simp_all [Outcome.events]
            obtain ⟨rfl, rfl | rfl⟩ := he
            · exact Or.inr ⟨.starting (f v), true, [], rfl, by simp, .start hf, rfl⟩
            · exact Or.inr ⟨.starting (f v), true, [], rfl, by simp, .start hf, rfl⟩
        · simp at hnil
      · rcases step_binding hs with ⟨x'', es, hx', rfl, rfl⟩ | ⟨us, y', c', vs, y'', es, heq, hy, rfl, rfl⟩
        · -- after its value the source can only complete
          obtain ⟨hheard, hp'⟩ := hp.step hx'
          have hadd : added (Q := Q) (A := A) f es = [] := by
            obtain ⟨rest, hrest⟩ := hp'.isPrefix
            rcases sx with _ | ⟨e, sx⟩
            · exact absurd rfl hne
            · cases c <;> rcases sx with _ | ⟨e', sx⟩ <;> rcases es with _ | ⟨u, es⟩ <;>
                simp_all [Outcome.events, added]
          refine ⟨x'', stillOpen b es, sx ++ es, hp', Or.inr ⟨y, d, sy, ?_, by simp [hne], hpy, ?_⟩⟩
          · rw [hheard, hadd, List.append_nil]
          · rw [hheard, hadd, bindOut_source ⟨_, _, rfl⟩ hp'.isPrefix]
            simp [allClosed, hpy.flag]
        · obtain ⟨rfl, ⟨rfl, rfl⟩, rfl⟩ : us = [] ∧ (y' = y ∧ c' = d) ∧ vs = [] := by
            cases us <;> simp_all
          obtain ⟨hheard, hp'⟩ := hpy.step hy
          refine ⟨x', b, sx, hp, Or.inr ⟨y'', stillOpen c' es, sy ++ es, rfl, hne, hp', ?_⟩⟩
          rw [hheard, bindOut_inner hp'.isPrefix]
          simp [allClosed, hp.flag]
  obtain ⟨x', b, sx, hp, hcase⟩ := inv
  rw [← bindOut_events v c o]
  rcases hcase with ⟨rfl, rfl, rfl⟩ | ⟨y, d, sy, rfl, -, hpy, rfl⟩
  · refine ⟨List.nil_prefix, fun hq => ?_⟩
    cases hq with
    | binding hqx _ =>
      have := hp.quiet hqx
      simp [Outcome.events] at this
  · constructor
    · obtain ⟨us, hus⟩ := hp.isPrefix
      obtain ⟨vs, hvs⟩ := hpy.isPrefix
      rw [← hus, bindOut_source ⟨_, _, rfl⟩ ⟨[], by rw [hus, List.append_nil]⟩, ← hvs,
        bindOut_inner ⟨[], by rw [hvs, List.append_nil]⟩, List.append_assoc]
      exact List.prefix_append _ _
    · intro hq
      cases hq with
      | binding hqx hqy => rw [hp.quiet hqx, hpy.quiet (hqy (y, d) (by simp))]

/-! ### Forwarding values, and the main queue -/

theorem forwardOut_events (g : Value α → Option (Value α)) (o : Outcome α) :
    o.events.flatMap (forwardOut g) = (o.forward g).events := by
  rcases o with ⟨_ | v, _ | _⟩ | k
  · rfl
  · rfl
  · cases hg : g v <;> simp [forwardOut, Outcome.forward, hg]
  · cases hg : g v <;> simp [forwardOut, Outcome.forward, hg]
  · rfl

/-- **A `forwardNext` sends the value of its source and completes**, and nothing
when there is no value: the completion of the source is not passed on. -/
theorem sends_forwarding {g : Value α → Option (Value α)} {x : Sub Q A α} {o : Outcome α}
    (hx : Sends ans x o.events) : Sends ans (.forwarding g x true) (o.forward g).events := by
  intro z sent hrun
  have inv : ∃ x' b sx, z = .forwarding g x' b ∧ Progress ans o.events x' b sx ∧
      sent = sx.flatMap (forwardOut g) := by
    induction hrun with
    | refl => exact ⟨x, true, [], rfl, .start hx, rfl⟩
    | tail _ hs ih =>
      obtain ⟨x', b, sx, rfl, hp, rfl⟩ := ih
      cases hs with
      | forward hs =>
        obtain ⟨hheard, hp'⟩ := hp.step hs
        exact ⟨_, _, _, rfl, hp', by rw [hheard, List.flatMap_append]⟩
  obtain ⟨x', b, sx, rfl, hp, rfl⟩ := inv
  rw [← forwardOut_events g o]
  constructor
  · obtain ⟨us, hus⟩ := hp.isPrefix
    rw [← hus, List.flatMap_append]
    exact List.prefix_append _ _
  · intro hq
    cases hq with
    | forwarding hqx => rw [hp.quiet hqx]

/-- Events of an outcome are either all kept by the main queue, or are one crash. -/
theorem filter_crash_events {o : Outcome α} {sent es : List (Event α)}
    (h : sent ++ es <+: o.events) :
    (es.filter Event.isCrash = [] ∧ es.filter (fun e => !e.isCrash) = es) ∨
      (sent = [] ∧ es.filter Event.isCrash = es ∧ es.filter (fun e => !e.isCrash) = []) := by
  rcases o with ⟨v, c⟩ | k
  · apply Or.inl
    have hall : ∀ e ∈ es, e.isCrash = false := by
      intro e he
      have hmem : e ∈ (Outcome.settled v c).events := h.subset (List.mem_append_right _ he)
      rcases v with _ | v <;> cases c <;> simp [Outcome.events] at hmem <;>
        rcases hmem with rfl | rfl <;> rfl
    exact ⟨by simpa [List.filter_eq_nil_iff] using hall,
      List.filter_eq_self.mpr (by simpa using hall)⟩
  · obtain ⟨rest, hrest⟩ := h
    rcases sent with _ | ⟨u, sent⟩ <;> rcases es with _ | ⟨e, es⟩ <;>
      simp_all [Outcome.events]

/-- **Delivering on the main queue** changes neither the events nor their order. -/
theorem sends_delivering {x : Sub Q A α} {o : Outcome α} (hx : Sends ans x o.events) :
    Sends ans (.delivering x true []) o.events := by
  intro z sent hrun
  have inv : ∃ x' b sx queue, z = .delivering x' b queue ∧ Progress ans o.events x' b sx ∧
      sx = sent ++ queue := by
    induction hrun with
    | refl => exact ⟨x, true, [], [], rfl, .start hx, rfl⟩
    | tail _ hs ih =>
      obtain ⟨x', b, sx, queue, rfl, hp, rfl⟩ := ih
      cases hs with
      | @enqueue _ _ _ _ es hs =>
        obtain ⟨hheard, hp'⟩ := hp.step hs
        refine ⟨_, _, _, _, rfl, hp', ?_⟩
        rw [hheard]
        rcases filter_crash_events hp'.isPrefix with ⟨h₁, h₂⟩ | ⟨hnil, h₁, h₂⟩
        · rw [h₁, h₂]
          simp
        · obtain ⟨rfl, rfl⟩ := List.append_eq_nil_iff.mp hnil
          rw [h₁, h₂]
          simp
      | mainQueue x b e queue => exact ⟨_, _, _, _, rfl, hp, by simp⟩
  obtain ⟨x', b, sx, queue, rfl, hp, rfl⟩ := inv
  refine ⟨(List.prefix_append _ _).trans hp.isPrefix, fun hq => ?_⟩
  cases hq with
  | delivering hqx => simpa using hp.quiet hqx

/-! ### Adequacy -/

theorem sends_just (es : List (Event α)) :
    Sends ans (.starting (.just es) : Sub Q A α) es := by
  have h : Sends ans (.starting (.just es) : Sub Q A α) (es ++ []) :=
    sends_of_unique_step (.just es) (fun z sent hs => by cases hs; exact ⟨rfl, rfl⟩) sends_idle
  simpa using h

theorem sends_request (q : Q) (k : A q → List (Event α)) :
    Sends ans (.starting (.request q k)) (k (ans q)) := by
  have hwait : Sends ans (.waiting q k) (k (ans q) ++ []) :=
    sends_of_unique_step (.answer q k) (fun z sent hs => by cases hs; exact ⟨rfl, rfl⟩) sends_idle
  have h := sends_of_unique_step (.request q k)
    (fun z sent hs => by cases hs; exact ⟨rfl, rfl⟩) hwait
  simpa using h

/-- An outcome without a value has no event that is one. -/
theorem events_silent_mem {o : Outcome α} (ho : ∀ v c, o ≠ .settled (some v) c) :
    ∀ e ∈ o.events, e = .completed ∨ ∃ k, e = .crash k := by
  intro e he
  rcases o with ⟨_ | v, _ | _⟩ | k
  · simp at he
  · exact Or.inl (by simpa using he)
  · exact absurd rfl (ho v false)
  · exact absurd rfl (ho v true)
  · exact Or.inr ⟨k, by simpa using he⟩

/-- **Adequacy.**  Every run of a subscription to a signal sends a prefix of the
outcome of the signal, and all of it once nothing is outstanding. -/
theorem sends_of_outcome (ans : (q : Q) → A q) (s : Signal Q A α) :
    ∀ {o : Outcome α}, s.outcome ans = some o → Sends ans (.starting s) o.events := by
  induction s with
  | just es =>
    intro o ho
    rw [Outcome.events_of_ofEvents ho]
    exact sends_just es
  | request q k =>
    intro o ho
    rw [Outcome.events_of_ofEvents ho]
    exact sends_request q k
  | flattenMap s f ihs ihf =>
    intro o ho
    obtain ⟨os, hs, ho⟩ := Option.bind_eq_some_iff.mp ho
    refine sends_of_silent_step (.flattenMap s f)
      (fun z sent hz => by cases hz; exact ⟨rfl, rfl⟩) ?_
    match os, hs, ho with
    | .settled none c, hs, rfl =>
      exact sends_binding_silent (events_silent_mem fun _ _ h => by cases h) (ihs hs)
    | .crashed k, hs, rfl =>
      exact sends_binding_silent (events_silent_mem fun _ _ h => by cases h) (ihs hs)
    | .settled (some v) c, hs, ho =>
      obtain ⟨ov, hv, rfl⟩ := Option.map_eq_some_iff.mp ho
      exact sends_binding (ihs hs) (ihf v hv)
  | combineLatestWith s t ihs iht =>
    intro o ho
    obtain ⟨os, hs, ho⟩ := Option.bind_eq_some_iff.mp ho
    obtain ⟨ot, ht, ho⟩ := Option.bind_eq_some_iff.mp ho
    refine sends_of_silent_step (.combineLatestWith s t)
      (fun z sent hz => by cases hz; exact ⟨rfl, rfl⟩) ?_
    match os, ot, hs, ht, ho with
    | .settled v c, .settled w d, hs, ht, rfl => exact sends_combining (ihs hs) (iht ht)
  | forwardNext g s ih =>
    intro o ho
    obtain ⟨os, hs, rfl⟩ := Option.map_eq_some_iff.mp ho
    exact sends_of_silent_step (.forwardNext g s)
      (fun z sent hz => by cases hz; exact ⟨rfl, rfl⟩) (sends_forwarding (ih hs))
  | deliverOnMainThread s ih =>
    intro o ho
    exact sends_of_silent_step (.deliverOnMainThread s)
      (fun z sent hz => by cases hz; exact ⟨rfl, rfl⟩) (sends_delivering (ih ho))
  | subscribeOn s ih =>
    intro o ho
    exact sends_of_silent_step (.subscribeOn s)
      (fun z sent hz => by cases hz; exact ⟨rfl, rfl⟩) (ih ho)

/-- A signal with an outcome has a run that sends all of it, and is over. -/
theorem exists_run_of_outcome {s : Signal Q A α} {o : Outcome α}
    (ho : s.outcome ans = some o) :
    ∃ x, Run ans (.starting s) x o.events ∧ Quiet x := by
  obtain ⟨x, sent, hr, hq⟩ := exists_quiet_run (terminates_starting ans s)
  have hsent := (sends_of_outcome ans s ho x sent hr).2 hq
  exact ⟨x, hsent ▸ hr, hq⟩

/-! ### Being heard of -/

/-- No run subscribes to the abstract base class, and a run with nothing
outstanding has sent a value, an error or a completion. -/
def EndsInEvent (ans : (q : Q) → A q) (s : Signal Q A α) : Prop :=
  ∀ x sent, Run ans (.starting s) x sent →
    .crash .abstractSubscribe ∉ sent ∧ (Quiet x → ∃ e ∈ sent, e.isCrash = false)

/-- A signal with an outcome ends in an event when the outcome holds one. -/
theorem endsInEvent_iff {s : Signal Q A α} {o : Outcome α} (ho : s.outcome ans = some o) :
    EndsInEvent ans s ↔ ∃ e ∈ o.events, e.isCrash = false := by
  constructor
  · intro h
    obtain ⟨x, hr, hq⟩ := exists_run_of_outcome ho
    exact (h x _ hr).2 hq
  · intro h x sent hr
    obtain ⟨hpre, hall⟩ := sends_of_outcome ans s ho x sent hr
    refine ⟨fun hmem => ?_, fun hq => hall hq ▸ h⟩
    -- an outcome with a crash has nothing else
    obtain ⟨e, he, hcrash⟩ := h
    have hmem := hpre.subset hmem
    cases o with
    | settled v c => cases v <;> cases c <;> simp at hmem
    | crashed k =>
      rw [Outcome.events_crashed, List.mem_singleton] at he
      rw [he] at hcrash
      cases hcrash

end Reactive
