import LANScan.Reactive.Adequacy

/-!
# What is heard of lists of events

A subscriber hears events one after another, and nothing after a terminal one.  So what it
hears of two lists, one after the other, is what it hears of the first, and of the second if it
is still open after that.

## Main results

* `heard_append` — one list of events after another.
* `heard_eq_events` — what ends as a beginning of an outcome does has sent all of it.
* `pairOut_isPrefix`, `bindOut_isPrefix` — beginnings of the parts give a beginning of the whole.
-/

namespace Reactive

variable {α : Type}

@[simp] theorem stillOpen_false (es : List (Event α)) : stillOpen false es = false := rfl

theorem stillOpen_append (isOpen : Bool) (es es' : List (Event α)) :
    stillOpen isOpen (es ++ es') = stillOpen (stillOpen isOpen es) es' := by
  simp [stillOpen, List.any_append, Bool.and_assoc]

theorem stillOpen_cons (e : Event α) (es : List (Event α)) :
    stillOpen true (e :: es) = stillOpen (!e.terminal) es := by
  simp [stillOpen]

/-- One list of events after another. -/
theorem heard_append : ∀ (isOpen : Bool) (es es' : List (Event α)),
    heard isOpen (es ++ es') = heard isOpen es ++ heard (stillOpen isOpen es) es'
  | isOpen, [], es' => by
    simp [heard, stillOpen]
  | true, e :: es, es' => by
    rw [List.cons_append, heard, heard_append, stillOpen_cons]
    rfl
  | false, e :: es, es' => by
    rw [List.cons_append, heard, heard, heard_append, stillOpen_false, stillOpen_false]
    split
    next => rfl
    next => rfl

/-- Nothing but a crash is heard where nobody listens. -/
theorem heard_false {es : List (Event α)} (h : ∀ e ∈ es, e.isCrash = false) :
    heard false es = [] := by
  induction es with
  | nil => rfl
  | cons e es ih =>
    rw [heard, h e List.mem_cons_self]
    exact ih fun e he => h e (List.mem_cons_of_mem _ he)

theorem heard_subset : ∀ (isOpen : Bool) (es : List (Event α)), heard isOpen es ⊆ es
  | _, [] => fun _ h => h
  | true, e :: es => List.cons_subset_cons e (heard_subset _ es)
  | false, e :: es => by
    rw [heard]
    split
    next => exact List.cons_subset_cons e (heard_subset _ es)
    next => exact List.subset_cons_of_subset e (heard_subset _ es)

theorem any_terminal_heard : ∀ es : List (Event α),
    (heard true es).any Event.terminal = es.any Event.terminal
  | [] => rfl
  | e :: es => by
    rw [heard, List.any_cons, List.any_cons]
    cases hterminal : e.terminal with
    | true => rfl
    | false => rw [Bool.not_false, any_terminal_heard es]

/-! ### Beginnings of an outcome -/

/-- Nothing follows a terminal event of an outcome. -/
theorem eq_nil_of_terminal {o : Outcome α} {out rest : List (Event α)}
    (h : o.events = out ++ rest) (hany : out.any Event.terminal = true) : rest = [] := by
  cases rest with
  | nil => rfl
  | cons e rest =>
    have hnext : out ++ [e] <+: o.events :=
      ⟨rest, by rw [h, List.append_assoc, List.singleton_append]⟩
    -- a value and a crash come first, a completion after nothing terminal
    rcases events_snoc hnext with ⟨rfl, -⟩ | ⟨-, hopen⟩ | ⟨rfl, -⟩
    · cases hany
    · exact absurd (hopen.symm.trans hany) (by decide)
    · cases hany

/-- An outcome has no error. -/
theorem terminal_eq_isCompleted {o : Outcome α} {e : Event α} (h : e ∈ o.events) :
    e.terminal = e.isCompleted := by
  cases e with
  | next v => rfl
  | error =>
    exfalso
    cases o with
    | settled v completes => cases v <;> cases completes <;> simp at h
    | crashed c => simp at h
  | completed => rfl
  | crash c => rfl

/-- A beginning of an outcome is heard as it is. -/
theorem heard_of_isPrefix {o : Outcome α} {out : List (Event α)} (h : out <+: o.events) :
    heard true out = out := by
  obtain ⟨rest, heq⟩ := h
  exact heard_of_events (show o.events = [] ++ (out ++ rest) from heq.symm)

/-- What is heard as a beginning of an outcome, and has ended, is all of it. -/
theorem heard_eq_events {o : Outcome α} {sent out : List (Event α)}
    (hheard : heard true sent = heard true out) (hclosed : stillOpen true sent = false)
    (h : out <+: o.events) : heard true sent = o.events := by
  have hterminal : out.any Event.terminal = true := by
    have hsent : sent.any Event.terminal = true := by simpa [stillOpen] using hclosed
    rwa [← any_terminal_heard, hheard, any_terminal_heard] at hsent
  rw [hheard, heard_of_isPrefix h]
  obtain ⟨rest, heq⟩ := h
  obtain rfl := eq_nil_of_terminal heq.symm hterminal
  rw [← heq, List.append_nil]

/-! ### What the operators have sent -/

/-- A `combineLatestWith` has ended when both sides have. -/
theorem stillOpen_pairOut (sl sr : List (Event α)) :
    stillOpen true (pairOut sl sr) = !(sl.any Event.terminal && sr.any Event.terminal) := by
  have hvalue : ∀ o : Option (Value α),
      (o.map Event.next).toList.any Event.terminal = false := by
    intro o
    cases o with
    | none => rfl
    | some x => rfl
  have hpair : (((latest none sl).bind fun v => (latest none sr).map fun w =>
      Event.next (pairUp v w)).toList.any Event.terminal) = false := by
    rw [← hvalue ((latest none sl).bind fun v => (latest none sr).map (pairUp v)),
      Option.map_bind]
    simp only [Function.comp_def, Option.map_map]
  rw [stillOpen, pairOut, List.any_append, hpair, Bool.true_and, Bool.false_or]
  cases sl.any Event.terminal && sr.any Event.terminal with
  | false => rfl
  | true => rfl

/-- Beginnings of both sides give a beginning of the pair. -/
theorem pairOut_isPrefix {v w : Option (Value α)} {c d : Bool} {sl sr : List (Event α)}
    (hl : sl <+: (Outcome.settled v c).events) (hr : sr <+: (Outcome.settled w d).events) :
    pairOut sl sr <+: (Outcome.settled (v.bind fun a => w.map (pairUp a)) (c && d)).events := by
  obtain ⟨us, hus⟩ := hl
  obtain ⟨vs, hvs⟩ := hr
  rw [← pairOut_events, ← hus, pairOut_left ⟨[], by rw [hus, List.append_nil]⟩, ← hvs,
    pairOut_right ⟨[], by rw [hvs, List.append_nil]⟩, List.append_assoc]
  exact List.prefix_append _ _

/-- A `flattenMap` of one value has ended when the source and its stream have. -/
theorem stillOpen_bindOut {o : Outcome α} {sy : List (Event α)} (h : sy <+: o.events)
    (sl : List (Event α)) :
    stillOpen true (bindOut sl sy) = !(sl.any Event.terminal && sy.any Event.terminal) := by
  have hvalues : (sy.filter fun e => !e.isCompleted).any Event.terminal = false := by
    rw [List.any_eq_false]
    intro e he
    obtain ⟨hmem, hcompleted⟩ := List.mem_filter.mp he
    rw [terminal_eq_isCompleted (h.subset hmem)]
    simpa using hcompleted
  -- only the completion at the end is terminal, and it is there when both have ended
  rw [stillOpen, bindOut, List.any_append, hvalues, Bool.true_and, Bool.false_or]
  cases sl.any Event.terminal && sy.any Event.terminal with
  | false => rfl
  | true => rfl

/-- Beginnings of both streams give a beginning of what they send together. -/
theorem bindOut_isPrefix {v : Value α} {c : Bool} {o : Outcome α} {sl sy : List (Event α)}
    (hl : sl <+: (Outcome.settled (some v) c).events) (hy : sy <+: o.events) :
    bindOut sl sy <+: (o.andThen c).events := by
  obtain ⟨us, hus⟩ := hl
  obtain ⟨vs, hvs⟩ := hy
  rw [← bindOut_events v, ← hus, bindOut_source ⟨v, c, rfl⟩ ⟨[], by rw [hus, List.append_nil]⟩,
    ← hvs, bindOut_inner ⟨[], by rw [hvs, List.append_nil]⟩, List.append_assoc]
  exact List.prefix_append _ _

end Reactive
