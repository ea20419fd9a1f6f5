import LANScan.ReactiveCocoa.Subscriber

/-!
# What `bind:` keeps track of

The signal that `bind:` makes completes when its source and all the signals that values of
the source were mapped to have completed.  To know when, it keeps an array of the signals
that are still running, and removes a signal from it by identity, all its occurrences at
once.  Every handler is atomic here: what two of them share is behind a lock, but for the
check of the disposable before a value is mapped, which may come too early.

## Main definitions

* `Bind` — the variables of the subscription block of `bind:`, and its handlers.
* `Merge` — the streams that are still running one by one, with what `Reactive.Step` sends.

## Main results

* `bind_refines_merge` — **the array does what it is for** as long as all signals differ.
* `bind_waits_for_all_iff` — **and not otherwise**: where a signal occurs twice, some run
  completes before it has.
-/

namespace LANScan.ReactiveCocoa

open Reactive

variable {α : Type}

/-! ### Handlers -/

/-- What happens to a subscription block of `bind:`. -/
inductive BindEvent (α : Type)
  /-- A value of the source is mapped to a signal.  It may be that the disposable was checked
  before it was disposed of. -/
  | next (signal : Ref) (checked : Bool)
  /-- The binding block gives `nil`, or asks to stop after its signal. -/
  | stop (checked : Bool)
  | error
  | completed
  /-- A message of the signal that was subscribed to as number `i`. -/
  | inner (i : ℕ) (m : Message α)

/-- The disposable of the source; that of the signal with number `i` is `i + 1`. -/
def sourceDisposable : Ref := 0

/-- The variables of the subscription block, with the signals that it has subscribed to and
what it has sent. -/
structure Bind (α : Type) where
  signals : List Ref
  compoundDisposable : RACCompoundDisposable
  subscribed : List Ref
  sent : List (Event α)

namespace Bind

/-- Before the source has sent anything. -/
def new (source : Ref) : Bind α where
  signals := [source]
  compoundDisposable :=
    ((RACCompoundDisposable.initWithDisposables []).addDisposable sourceDisposable).1
  subscribed := []
  sent := []

/-- A signal is taken out of the array, with all that equal it, and the subscriber is done if none
is left. -/
def completeSignal (b : Bind α) (signal finishedDisposable : Ref) : Bind α :=
  let signals := b.signals.filter fun x => x != signal
  if signals = [] then
    { b with
      signals := signals
      sent := b.sent ++ [.completed]
      compoundDisposable := b.compoundDisposable.dispose.1 }
  else
    { b with
      signals := signals
      compoundDisposable := b.compoundDisposable.removeDisposable finishedDisposable }

/-- A signal is put into the array and subscribed to. -/
def addSignal (b : Bind α) (signal : Ref) : Bind α :=
  { b with
    signals := b.signals ++ [signal]
    compoundDisposable := (b.compoundDisposable.addDisposable (b.subscribed.length + 1)).1
    subscribed := b.subscribed ++ [signal] }

/-- The handlers for errors. -/
def sendError (b : Bind α) : Bind α :=
  { b with compoundDisposable := b.compoundDisposable.dispose.1, sent := b.sent ++ [.error] }

/-- What the handlers do with a message. -/
def handle (source : Ref) (b : Bind α) : BindEvent α → Bind α
  | .next signal checked =>
    if b.compoundDisposable.disposed = true ∧ checked = false then b else b.addSignal signal
  | .stop checked =>
    if b.compoundDisposable.disposed = true ∧ checked = false then b
    else b.completeSignal source sourceDisposable
  | .error => b.sendError
  | .completed => b.completeSignal source sourceDisposable
  | .inner i m =>
    match b.subscribed[i]?, m with
    | none, _ => b
    | some _, .sendNext v => { b with sent := b.sent ++ [.next v] }
    | some _, .sendError => b.sendError
    | some signal, .sendCompleted => b.completeSignal signal (i + 1)

/-- The messages one after the other. -/
def run (source : Ref) (es : List (BindEvent α)) : Bind α := es.foldl (handle source) (new source)

end Bind

/-! ### What they are for -/

/-- Which of the streams are still running, and what is sent for them. -/
structure Merge (α : Type) where
  isOpen : Bool
  inners : List Bool
  sent : List (Event α)

namespace Merge

/-- Only the source runs. -/
def new : Merge α := ⟨true, [], []⟩

/-- No stream that a value was mapped to is running. -/
def allClosed (inners : List Bool) : Bool := inners.all fun b => !b

/-- What a message means for the streams. -/
def handle (s : Merge α) : BindEvent α → Merge α
  | .next _ _ => { s with inners := s.inners ++ [true] }
  | .stop _ =>
    { s with isOpen := false, sent := s.sent ++ sourceOut (allClosed s.inners) .completed }
  | .error => { s with isOpen := false, sent := s.sent ++ sourceOut (allClosed s.inners) .error }
  | .completed =>
    { s with isOpen := false, sent := s.sent ++ sourceOut (allClosed s.inners) .completed }
  | .inner i m =>
    match s.inners[i]? with
    | none => s
    | some isOpen =>
      { s with
        inners := s.inners.set i (isOpen && !m.event.terminal)
        sent := s.sent ++ innerOut (!s.isOpen && allClosed (s.inners.set i false)) m.event }

/-- The messages one after the other. -/
def run (es : List (BindEvent α)) : Merge α := es.foldl handle new

end Merge

/-- The signals that values of the source are mapped to. -/
def signalsOf (es : List (BindEvent α)) : List Ref :=
  es.filterMap fun
    | .next signal _ => some signal
    | _ => none

/-! ### The array and the streams -/

variable {source signal : Ref} {b : Bind α} {s : Merge α} {i : ℕ}

/-- The subscription block has sent nothing terminal, and its array says of each stream
whether it is still running, as its disposable does. -/
structure Alike (source : Ref) (b : Bind α) (s : Merge α) : Prop where
  sent_eq : b.sent = s.sent
  stillOpen_eq : stillOpen true b.sent = true
  disposed_eq : b.compoundDisposable.disposed = false
  length_eq : s.inners.length = b.subscribed.length
  mem_source : source ∈ b.signals ↔ s.isOpen = true
  mem_inner : ∀ (i : ℕ) (x : Ref), b.subscribed[i]? = some x →
    (x ∈ b.signals ↔ s.inners[i]? = some true)
  mem_signals : ∀ x ∈ b.signals, x = source ∨ x ∈ b.subscribed
  mem_contents : ∀ d, d ∈ b.compoundDisposable.contents ↔
    d = sourceDisposable ∧ s.isOpen = true ∨ ∃ i, d = i + 1 ∧ s.inners[i]? = some true

/-- Both have sent a terminal event, and the same before. -/
structure Ended (b : Bind α) (s : Merge α) : Prop where
  heard_eq : heard true b.sent = heard true s.sent
  stillOpen_left : stillOpen true b.sent = false
  stillOpen_right : stillOpen true s.sent = false
  disposed_eq : b.compoundDisposable.disposed = true

theorem alike_new (source : Ref) : Alike source (Bind.new source : Bind α) Merge.new where
  sent_eq := rfl
  stillOpen_eq := rfl
  disposed_eq := rfl
  length_eq := rfl
  mem_source := iff_of_true (List.mem_singleton_self source) rfl
  mem_inner i x hx := by cases hx
  mem_signals x hx := Or.inl (List.mem_singleton.mp hx)
  mem_contents d := by
    have hcontents : (Bind.new source : Bind α).compoundDisposable.contents =
        [sourceDisposable] := rfl
    rw [hcontents]
    simp [Merge.new]

/-- A value is mapped to a signal that is not among those before. -/
theorem Alike.next (h : Alike source b s) (hsource : signal ≠ source)
    (hnew : signal ∉ b.subscribed) :
    Alike source (b.addSignal signal) { s with inners := s.inners ++ [true] } := by
  obtain ⟨-, hdisposed, hperm⟩ :=
    RACCompoundDisposable.addDisposable_spec h.disposed_eq (b.subscribed.length + 1)
  refine ⟨h.sent_eq, h.stillOpen_eq, hdisposed, ?_, ?_, fun i x hx => ?_, fun x hx => ?_,
    fun d => ?_⟩
  · show (s.inners ++ [true]).length = (b.subscribed ++ [signal]).length
    rw [List.length_append, List.length_append, h.length_eq]
    rfl
  · show source ∈ b.signals ++ [signal] ↔ s.isOpen = true
    rw [List.mem_append, List.mem_singleton, h.mem_source]
    exact or_iff_left hsource.symm
  · show x ∈ b.signals ++ [signal] ↔ (s.inners ++ [true])[i]? = some true
    rw [List.mem_append, List.mem_singleton]
    rcases getElem?_append_cases hx with hold | ⟨rfl, rfl⟩
    · have hi : i < s.inners.length := by
        rw [h.length_eq]
        exact (List.getElem?_eq_some_iff.mp hold).1
      have hne : x ≠ signal := by
        rintro rfl
        exact hnew (List.mem_of_getElem? hold)
      rw [List.getElem?_append_left hi, ← h.mem_inner i x hold]
      exact or_iff_left hne
    · refine iff_of_true (Or.inr rfl) ?_
      rw [← h.length_eq, List.getElem?_concat_length]
  · have hx : x ∈ b.signals ++ [signal] := hx
    show x = source ∨ x ∈ b.subscribed ++ [signal]
    rw [List.mem_append] at hx ⊢
    rcases hx with hx | hx
    · exact (h.mem_signals x hx).imp_right Or.inl
    · exact Or.inr (Or.inr hx)
  · show d ∈ (b.compoundDisposable.addDisposable (b.subscribed.length + 1)).1.contents ↔
      d = sourceDisposable ∧ s.isOpen = true ∨ ∃ i, d = i + 1 ∧ (s.inners ++ [true])[i]? = some true
    have hrunning : ∀ i, (s.inners ++ [true])[i]? = some true ↔
        s.inners[i]? = some true ∨ i = s.inners.length := by
      intro i
      constructor
      · intro hi
        exact (getElem?_append_cases hi).imp_right And.left
      · rintro (hi | rfl)
        · rw [List.getElem?_append_left (List.getElem?_eq_some_iff.mp hi).1, hi]
        · exact List.getElem?_concat_length
    rw [hperm.mem_iff, List.mem_cons, h.mem_contents, ← h.length_eq]
    simp only [hrunning]
    grind

/-- All streams are closed if none is open. -/
theorem allClosed_iff {inners : List Bool} :
    Merge.allClosed inners = true ↔ ∀ i : ℕ, inners[i]? ≠ some true := by
  rw [Merge.allClosed, List.all_eq_true]
  constructor
  · intro hall i hi
    exact absurd (hall true (List.mem_of_getElem? hi)) (by decide)
  · intro hall b hb
    obtain ⟨i, hi⟩ := List.mem_iff_getElem?.mp hb
    cases b with
    | true => exact absurd hi (hall i)
    | false => rfl

/-- Both send a terminal event. -/
theorem Alike.ended (h : Alike source b s) {e : Event α} (he : e.terminal = true) {b' : Bind α}
    {s' : Merge α} (hb : b'.sent = b.sent ++ [e]) (hs : s'.sent = s.sent ++ [e])
    (hdisposed : b'.compoundDisposable.disposed = true) : Ended b' s' := by
  have hclosed : ∀ es : List (Event α), stillOpen true (es ++ [e]) = false := by
    intro es
    rw [stillOpen_concat, he]
    exact Bool.and_false _
  refine ⟨?_, ?_, ?_, hdisposed⟩
  · rw [hb, hs, h.sent_eq]
  · rw [hb, hclosed]
  · rw [hs, hclosed]

/-- What `completeSignal` does to the array. -/
theorem mem_completeSignal {x f : Ref} :
    x ∈ (b.completeSignal signal f).signals ↔ x ∈ b.signals ∧ x ≠ signal := by
  unfold Bind.completeSignal
  dsimp only
  split
  next => simp
  next => simp

theorem subscribed_completeSignal (b : Bind α) (signal f : Ref) :
    (b.completeSignal signal f).subscribed = b.subscribed := by
  unfold Bind.completeSignal
  dsimp only
  split
  next => rfl
  next => rfl

/-- The check of the disposable passes as long as it has not been disposed of. -/
theorem check_passes (hopen : b.compoundDisposable.disposed = false) (checked : Bool) :
    ¬(b.compoundDisposable.disposed = true ∧ checked = false) := by
  rintro ⟨hclosed, -⟩
  rw [hopen] at hclosed
  cases hclosed

/-- **The array is empty just when no stream is running.** -/
theorem Alike.completeSignal (h : Alike source b s) {f : Ref} {isOpen : Bool} {inners : List Bool}
    (hlength : inners.length = s.inners.length)
    (hsource : isOpen = true ↔ s.isOpen = true ∧ source ≠ signal)
    (hinner : ∀ (i : ℕ) (x : Ref), b.subscribed[i]? = some x →
      (inners[i]? = some true ↔ s.inners[i]? = some true ∧ x ≠ signal))
    (hcontents : ∀ d, (d = sourceDisposable ∧ isOpen = true ∨
      ∃ i, d = i + 1 ∧ inners[i]? = some true) ↔ (d = sourceDisposable ∧ s.isOpen = true ∨
        ∃ i, d = i + 1 ∧ s.inners[i]? = some true) ∧ d ≠ f) {s' : Merge α}
    (hs' : s' = ⟨isOpen, inners, s.sent ++
      if !isOpen && Merge.allClosed inners then [.completed] else []⟩) :
    Alike source (b.completeSignal signal f) s' ∨ Ended (b.completeSignal signal f) s' := by
  subst hs'
  have hmem : ∀ x, x ∈ b.signals.filter (fun x => x != signal) ↔ x ∈ b.signals ∧ x ≠ signal := by
    intro x
    simp
  have hrunning : b.signals.filter (fun x => x != signal) = [] ↔
      (!isOpen && Merge.allClosed inners) = true := by
    rw [List.eq_nil_iff_forall_not_mem, Bool.and_eq_true, Bool.not_eq_true', allClosed_iff]
    constructor
    · intro hnone
      refine ⟨Bool.eq_false_iff.mpr fun hopen => ?_, fun i hi => ?_⟩
      · obtain ⟨hopen, hne⟩ := hsource.mp hopen
        exact hnone source ((hmem source).mpr ⟨h.mem_source.mpr hopen, hne⟩)
      · have hlt : i < b.subscribed.length := by
          rw [← h.length_eq, ← hlength]
          exact (List.getElem?_eq_some_iff.mp hi).1
        have hx := List.getElem?_eq_getElem hlt
        obtain ⟨hi, hne⟩ := (hinner i _ hx).mp hi
        exact hnone _ ((hmem _).mpr ⟨(h.mem_inner i _ hx).mpr hi, hne⟩)
    · rintro ⟨hclosed, hall⟩ x hx
      obtain ⟨hx, hne⟩ := (hmem x).mp hx
      rcases h.mem_signals x hx with rfl | hsub
      · exact absurd (hsource.mpr ⟨h.mem_source.mp hx, hne⟩) (by rw [hclosed]; decide)
      · obtain ⟨i, hi⟩ := List.mem_iff_getElem?.mp hsub
        exact hall i ((hinner i x hi).mpr ⟨(h.mem_inner i x hi).mp hx, hne⟩)
  unfold Bind.completeSignal
  by_cases hnil : b.signals.filter (fun x => x != signal) = []
  · rw [if_pos hnil, if_pos (hrunning.mp hnil)]
    exact Or.inr (h.ended rfl rfl rfl rfl)
  · rw [if_neg hnil, if_neg (fun hall => hnil (hrunning.mpr hall)), List.append_nil]
    obtain ⟨hdisposed, hremoved⟩ := RACCompoundDisposable.removeDisposable_spec h.disposed_eq f
    refine Or.inl ⟨h.sent_eq, h.stillOpen_eq, hdisposed, hlength.trans h.length_eq, ?_,
      fun i x hx => ?_, fun x hx => ?_, fun d => ?_⟩
    · show source ∈ b.signals.filter (fun x => x != signal) ↔ isOpen = true
      rw [hmem, hsource, h.mem_source]
    · show x ∈ b.signals.filter (fun x => x != signal) ↔ inners[i]? = some true
      rw [hmem, hinner i x hx, h.mem_inner i x hx]
    · exact h.mem_signals x ((hmem x).mp hx).1
    · show d ∈ (b.compoundDisposable.removeDisposable f).contents ↔ _
      rw [hremoved, hcontents, ← h.mem_contents]
      simp

/-! ### Every handler -/

/-- **Every handler keeps array and streams alike**, until both have sent a terminal event. -/
theorem Alike.handle (h : Alike source b s) (e : BindEvent α)
    (hnodup : (source :: (b.subscribed ++ signalsOf [e])).Nodup) :
    Alike source (b.handle source e) (s.handle e) ∨ Ended (b.handle source e) (s.handle e) := by
  obtain ⟨hsource, hnodup⟩ := List.nodup_cons.mp hnodup
  have hdiffers : ∀ (i : ℕ) (x : Ref), b.subscribed[i]? = some x → x ≠ source := by
    rintro i x hx rfl
    exact hsource (List.mem_append_left _ (List.mem_of_getElem? hx))
  have hsourceEnds : ∀ s' : Merge α, s' = ⟨false, s.inners, s.sent ++
      if !false && Merge.allClosed s.inners then [.completed] else []⟩ →
      Alike source (b.completeSignal source sourceDisposable) s' ∨
        Ended (b.completeSignal source sourceDisposable) s' := by
    intro s' hs'
    refine h.completeSignal rfl (by simp) (fun i x hx => ?_) (fun d => ?_) hs'
    · exact (and_iff_left (hdiffers i x hx)).symm
    · simp only [sourceDisposable]
      grind
  cases e with
  | next signal checked =>
    have hmem : signal ∈ b.subscribed ++ [signal] :=
      List.mem_append_right _ (List.mem_singleton_self _)
    rw [Bind.handle, if_neg (check_passes h.disposed_eq checked)]
    refine Or.inl (h.next (fun heq => hsource (heq ▸ hmem)) fun hold => ?_)
    exact (List.nodup_append.mp hnodup).2.2 signal hold signal (List.mem_singleton_self _) rfl
  | stop checked =>
    rw [Bind.handle, if_neg (check_passes h.disposed_eq checked)]
    exact hsourceEnds _ rfl
  | completed => exact hsourceEnds _ rfl
  | error =>
    exact Or.inr (h.ended rfl rfl rfl rfl)
  | inner i m =>
    cases hx : b.subscribed[i]? with
    | none =>
      have hnone : s.inners[i]? = none := by
        rw [List.getElem?_eq_none_iff] at hx ⊢
        rwa [h.length_eq]
      have hb : b.handle source (.inner i m) = b := by simp only [Bind.handle, hx]
      have hs : s.handle (.inner i m) = s := by simp only [Merge.handle, hnone]
      rw [hb, hs]
      exact Or.inl h
    | some x =>
      obtain ⟨hi, -⟩ := List.getElem?_eq_some_iff.mp hx
      rw [← h.length_eq] at hi
      have hinner := List.getElem?_eq_getElem hi
      have hs : s.handle (.inner i m) = ⟨s.isOpen,
          s.inners.set i (s.inners[i] && !m.event.terminal), s.sent ++
            innerOut (!s.isOpen && Merge.allClosed (s.inners.set i false)) m.event⟩ := by
        simp only [Merge.handle, hinner]
      rw [hs]
      cases m with
      | sendNext v =>
        have hb : b.handle source (.inner i (.sendNext v)) =
            { b with sent := b.sent ++ [.next v] } := by simp only [Bind.handle, hx]
        have hsame : s.inners.set i (s.inners[i] && !(Message.sendNext v).event.terminal) =
            s.inners := by simp [Message.event]
        rw [hb, hsame]
        refine Or.inl ⟨congrArg (· ++ [.next v]) h.sent_eq, ?_, h.disposed_eq, h.length_eq,
          h.mem_source, h.mem_inner, h.mem_signals, h.mem_contents⟩
        show stillOpen true (b.sent ++ [.next v]) = true
        rw [stillOpen_concat, h.stillOpen_eq]
        rfl
      | sendError =>
        have hb : b.handle source (.inner i .sendError) = b.sendError := by
          simp only [Bind.handle, hx]
        rw [hb]
        exact Or.inr (h.ended rfl rfl rfl rfl)
      | sendCompleted =>
        have hb : b.handle source (.inner i .sendCompleted) = b.completeSignal x (i + 1) := by
          simp only [Bind.handle, hx]
        have hset : ∀ j, (s.inners.set i false)[j]? = some true ↔
            s.inners[j]? = some true ∧ j ≠ i := by
          intro j
          rw [List.getElem?_set]
          grind
        rw [hb]
        refine h.completeSignal (List.length_set ..) ?_ (fun j y hy => ?_) (fun d => ?_)
          (congrArg (Merge.mk s.isOpen · _) ?_)
        · exact (and_iff_left (hdiffers i x hx).symm).symm
        · rw [hset]
          refine and_congr_right fun _ => not_congr ⟨?_, ?_⟩
          · rintro rfl
            exact Option.some.inj (hy.symm.trans hx)
          · rintro rfl
            exact (List.getElem?_inj (List.getElem?_eq_some_iff.mp hy).1
              (List.nodup_append.mp hnodup).1).mp (hy.trans hx.symm)
        · simp only [hset]
          simp only [sourceDisposable]
          grind
        · simp [Message.event]

/-- What a handler does. -/
theorem handle_cases (source : Ref) (b : Bind α) (e : BindEvent α) :
    b.handle source e = b ∨ (∃ x, b.handle source e = b.addSignal x) ∨
      (∃ x f, b.handle source e = b.completeSignal x f) ∨ b.handle source e = b.sendError ∨
      ∃ v, b.handle source e = { b with sent := b.sent ++ [.next v] } := by
  cases e with
  | next signal checked =>
    rw [Bind.handle]
    split
    next => exact Or.inl rfl
    next => exact Or.inr (Or.inl ⟨signal, rfl⟩)
  | stop checked =>
    rw [Bind.handle]
    split
    next => exact Or.inl rfl
    next => exact Or.inr (Or.inr (Or.inl ⟨_, _, rfl⟩))
  | error => exact Or.inr (Or.inr (Or.inr (Or.inl rfl)))
  | completed => exact Or.inr (Or.inr (Or.inl ⟨_, _, rfl⟩))
  | inner i m =>
    cases hx : b.subscribed[i]? with
    | none => exact Or.inl (by simp only [Bind.handle, hx])
    | some x =>
      cases m with
      | sendNext v => exact Or.inr (Or.inr (Or.inr (Or.inr ⟨v, by simp only [Bind.handle, hx]⟩)))
      | sendError => exact Or.inr (Or.inr (Or.inr (Or.inl (by simp only [Bind.handle, hx]))))
      | sendCompleted =>
        exact Or.inr (Or.inr (Or.inl ⟨x, i + 1, by simp only [Bind.handle, hx]⟩))

/-- `completeSignal` completes and disposes, or it forgets the signal and its disposable. -/
theorem completeSignal_cases (b : Bind α) (x f : Ref) :
    (b.completeSignal x f).sent = b.sent ++ [.completed] ∧
        (b.completeSignal x f).compoundDisposable.disposed = true ∨
      (b.completeSignal x f).sent = b.sent ∧
        (b.completeSignal x f).compoundDisposable = b.compoundDisposable.removeDisposable f := by
  unfold Bind.completeSignal
  dsimp only
  split
  next => exact Or.inl ⟨rfl, rfl⟩
  next => exact Or.inr ⟨rfl, rfl⟩

/-- A handler only adds to what has been sent. -/
theorem sent_handle (source : Ref) (b : Bind α) (e : BindEvent α) :
    ∃ ms : List (Message α), (b.handle source e).sent = b.sent ++ ms.map Message.event := by
  have hnone : ∃ ms : List (Message α), b.sent = b.sent ++ ms.map Message.event :=
    ⟨[], (List.append_nil _).symm⟩
  rcases handle_cases source b e with h | ⟨x, h⟩ | ⟨x, f, h⟩ | h | ⟨v, h⟩
  · rw [h]
    exact hnone
  · rw [h]
    exact hnone
  · rw [h]
    rcases completeSignal_cases b x f with ⟨hsent, -⟩ | ⟨hsent, -⟩
    · exact ⟨[.sendCompleted], hsent⟩
    · rw [hsent]
      exact hnone
  · rw [h]
    exact ⟨[.sendError], rfl⟩
  · rw [h]
    exact ⟨[.sendNext v], rfl⟩

/-- A disposable that is disposed of stays so. -/
theorem disposed_handle (source : Ref) (hdisposed : b.compoundDisposable.disposed = true)
    (e : BindEvent α) : (b.handle source e).compoundDisposable.disposed = true := by
  rcases handle_cases source b e with h | ⟨x, h⟩ | ⟨x, f, h⟩ | h | ⟨v, h⟩
  · rwa [h]
  · rw [h]
    exact (RACCompoundDisposable.disposed_addDisposable _ _).trans hdisposed
  · rw [h]
    rcases completeSignal_cases b x f with ⟨-, hclosed⟩ | ⟨-, hremoved⟩
    · exact hclosed
    · rw [hremoved, RACCompoundDisposable.disposed_removeDisposable, hdisposed]
  · rw [h]
    rfl
  · rw [h]
    exact hdisposed

theorem Merge.sent_handle (s : Merge α) (e : BindEvent α) :
    ∃ ms : List (Message α), (s.handle e).sent = s.sent ++ ms.map Message.event := by
  have hsource : ∀ last, ∃ ms : List (Message α),
      (sourceOut last .completed : List (Event α)) = ms.map Message.event := by
    intro last
    cases last with
    | true => exact ⟨[.sendCompleted], rfl⟩
    | false => exact ⟨[], rfl⟩
  cases e with
  | next signal checked => exact ⟨[], (List.append_nil _).symm⟩
  | stop checked =>
    obtain ⟨ms, hms⟩ := hsource (Merge.allClosed s.inners)
    exact ⟨ms, congrArg (s.sent ++ ·) hms⟩
  | error => exact ⟨[.sendError], rfl⟩
  | completed =>
    obtain ⟨ms, hms⟩ := hsource (Merge.allClosed s.inners)
    exact ⟨ms, congrArg (s.sent ++ ·) hms⟩
  | inner i m =>
    rw [Merge.handle]
    split
    next => exact ⟨[], (List.append_nil _).symm⟩
    next =>
      cases m with
      | sendNext v => exact ⟨[.sendNext v], rfl⟩
      | sendError => exact ⟨[.sendError], rfl⟩
      | sendCompleted =>
        cases hlast : !s.isOpen && Merge.allClosed (s.inners.set i false) with
        | true => exact ⟨[.sendCompleted], rfl⟩
        | false => exact ⟨[], rfl⟩

/-- Nothing that follows a terminal event is heard. -/
theorem heard_append_of_closed {es : List (Event α)} (hclosed : stillOpen true es = false)
    (ms : List (Message α)) : heard true (es ++ ms.map Message.event) = heard true es ∧
      stillOpen true (es ++ ms.map Message.event) = false := by
  refine ⟨?_, ?_⟩
  · rw [heard_append, hclosed, heard_messages_false, List.append_nil]
  · rw [stillOpen_append, hclosed, stillOpen_false]

/-- What comes after a terminal event is not heard on either side. -/
theorem Ended.handle (h : Ended b s) (source : Ref) (e : BindEvent α) :
    Ended (b.handle source e) (s.handle e) := by
  obtain ⟨ms, hb⟩ := sent_handle source b e
  obtain ⟨ms', hs⟩ := s.sent_handle e
  obtain ⟨hheardb, hclosedb⟩ := heard_append_of_closed h.stillOpen_left ms
  obtain ⟨hheards, hcloseds⟩ := heard_append_of_closed h.stillOpen_right ms'
  refine ⟨?_, ?_, ?_, disposed_handle source h.disposed_eq e⟩
  · rw [hb, hs, hheardb, hheards, h.heard_eq]
  · rw [hb, hclosedb]
  · rw [hs, hcloseds]

/-- As long as it is not disposed of, every signal is subscribed to. -/
theorem subscribed_handle (source : Ref) (hopen : b.compoundDisposable.disposed = false)
    (e : BindEvent α) : (b.handle source e).subscribed = b.subscribed ++ signalsOf [e] := by
  cases e with
  | next signal checked =>
    rw [Bind.handle, if_neg (check_passes hopen checked)]
    rfl
  | stop checked =>
    rw [Bind.handle, if_neg (check_passes hopen checked), subscribed_completeSignal]
    exact (List.append_nil _).symm
  | error => exact (List.append_nil _).symm
  | completed => exact (subscribed_completeSignal ..).trans (List.append_nil _).symm
  | inner i m =>
    refine Eq.trans ?_ (List.append_nil _).symm
    cases hx : b.subscribed[i]? with
    | none => simp only [Bind.handle, hx]
    | some x =>
      cases m with
      | sendNext v => simp only [Bind.handle, hx]
      | sendError => simp only [Bind.handle, hx, Bind.sendError]
      | sendCompleted => simp only [Bind.handle, hx, subscribed_completeSignal]

theorem signalsOf_append (es es' : List (BindEvent α)) :
    signalsOf (es ++ es') = signalsOf es ++ signalsOf es' := List.filterMap_append

theorem merge_run_concat (es : List (BindEvent α)) (e : BindEvent α) :
    Merge.run (es ++ [e]) = (Merge.run es).handle e := List.foldl_concat ..

/-- The array and the streams after any run. -/
theorem alike_or_ended (source : Ref) (es : List (BindEvent α))
    (h : (source :: signalsOf es).Nodup) :
    Alike source (Bind.run source es) (Merge.run es) ∧
        (Bind.run source es).subscribed = signalsOf es ∨
      Ended (Bind.run source es) (Merge.run es) := by
  induction es using List.reverseRecOn with
  | nil => exact Or.inl ⟨alike_new source, rfl⟩
  | append_singleton es e ih =>
    have hrun : Bind.run source (es ++ [e]) = (Bind.run source es).handle source e :=
      List.foldl_concat ..
    rw [signalsOf_append] at h
    rw [hrun, merge_run_concat, signalsOf_append]
    have hbefore : (source :: signalsOf es).Nodup :=
      h.sublist ((List.sublist_append_left ..).cons_cons source)
    rcases ih hbefore with ⟨halike, hsubscribed⟩ | hended
    · rw [← hsubscribed] at h
      rcases halike.handle e h with halike' | hended
      · exact Or.inl ⟨halike', by rw [subscribed_handle source halike.disposed_eq, hsubscribed]⟩
      · exact Or.inr hended
    · exact Or.inr (hended.handle source e)

/-- Until it is disposed of, it has sent just what was sent for the streams. -/
theorem sent_eq_of_open {es : List (BindEvent α)} (h : (source :: signalsOf es).Nodup)
    (hopen : (Bind.run source es).compoundDisposable.disposed = false) :
    (Bind.run source es).sent = (Merge.run es).sent := by
  rcases alike_or_ended source es h with ⟨halike, -⟩ | hended
  · exact halike.sent_eq
  · exact absurd (hopen.symm.trans hended.disposed_eq) (by decide)

/-- The subscriber hears what is sent for the streams one by one. -/
theorem heard_run_eq {es : List (BindEvent α)} (h : (source :: signalsOf es).Nodup) :
    heard true (Bind.run source es).sent = heard true (Merge.run es).sent := by
  rcases alike_or_ended source es h with ⟨halike, -⟩ | hended
  · rw [halike.sent_eq]
  · exact hended.heard_eq

/-- **The array does what it is for**: if the source and the signals that its values are mapped
to are all different, then whatever happens in which order, the subscriber hears what is sent
for the streams one by one, and until it is disposed of the disposable holds those of just the
streams that are still running. -/
theorem bind_refines_merge (source : Ref) (es : List (BindEvent α))
    (h : (source :: signalsOf es).Nodup) :
    heard true (Bind.run source es).sent = heard true (Merge.run es).sent ∧
      ((Bind.run source es).compoundDisposable.disposed = false →
        ∀ d, d ∈ (Bind.run source es).compoundDisposable.contents ↔
          d = sourceDisposable ∧ (Merge.run es).isOpen = true ∨
            ∃ i, d = i + 1 ∧ (Merge.run es).inners[i]? = some true) := by
  refine ⟨heard_run_eq h, fun hopen => ?_⟩
  rcases alike_or_ended source es h with ⟨halike, -⟩ | hended
  · exact halike.mem_contents
  · exact absurd (hopen.symm.trans hended.disposed_eq) (by decide)

/-- The first of two signals completes, then the source, then the second. -/
def twoSignals : List (BindEvent ℕ) :=
  [.next 8 false, .next 9 false, .inner 0 .sendCompleted, .completed, .inner 1 .sendCompleted]

theorem bind_refines_merge_twoSignals :
    (7 :: signalsOf twoSignals).Nodup ∧ heard true (Bind.run 7 twoSignals).sent = [.completed] := by
  have hnodup : (7 :: signalsOf twoSignals).Nodup := by decide
  have hmerge : heard true (Merge.run twoSignals).sent = [.completed] := rfl
  exact ⟨hnodup, (bind_refines_merge 7 twoSignals hnodup).1.trans hmerge⟩

/-! ### Signals that occur twice -/

/-- A message that something has failed. -/
def Message.isError : Message α → Bool
  | .sendError => true
  | _ => false

/-- A run in which nothing fails, after `n` signals have been subscribed to and perhaps the
source has ended: the source sends no value after its end, and the signals send after they
have been subscribed to. -/
def Proper : ℕ → Bool → List (BindEvent α) → Prop
  | _, _, [] => True
  | n, ended, .next _ _ :: es => ended = false ∧ Proper (n + 1) ended es
  | n, ended, .stop _ :: es => ended = false ∧ Proper n true es
  | n, ended, .completed :: es => ended = false ∧ Proper n true es
  | _, _, .error :: _ => False
  | n, ended, .inner i m :: es => i < n ∧ m.isError = false ∧ Proper n ended es

/-- A message with which the source ends. -/
def BindEvent.endsSource : BindEvent α → Bool
  | .stop _ => true
  | .completed => true
  | _ => false

/-- The source has ended, and `n` signals have completed. -/
def Finished (n : ℕ) (es : List (BindEvent α)) : Prop :=
  (∃ e ∈ es, e.endsSource = true) ∧ ∀ i < n, .inner i .sendCompleted ∈ es

theorem signalsOf_of_ended : ∀ {es : List (BindEvent α)} {n : ℕ}, Proper n true es →
    signalsOf es = []
  | [], _, _ => rfl
  | .next _ _ :: _, _, h => by cases h.1
  | .stop _ :: _, _, h => by cases h.1
  | .completed :: _, _, h => by cases h.1
  | .error :: _, _, h => h.elim
  | .inner _ _ :: es, _, h => show signalsOf es = [] from signalsOf_of_ended h.2.2

/-- A completion is sent when the source has ended and no stream is open. -/
theorem completed_handle {s : Merge α} {e : BindEvent α} (hsent : Event.completed ∉ s.sent)
    (h : Event.completed ∈ (s.handle e).sent) :
    (s.handle e).isOpen = false ∧ Merge.allClosed (s.handle e).inners = true := by
  cases e with
  | next signal checked => exact absurd h hsent
  | stop checked =>
    rcases List.mem_append.mp h with h | h
    · exact absurd h hsent
    · cases hlast : Merge.allClosed s.inners with
      | true => exact ⟨rfl, hlast⟩
      | false => simp [hlast, sourceOut] at h
  | error =>
    rcases List.mem_append.mp h with h | h
    · exact absurd h hsent
    · simp [sourceOut] at h
  | completed =>
    rcases List.mem_append.mp h with h | h
    · exact absurd h hsent
    · cases hlast : Merge.allClosed s.inners with
      | true => exact ⟨rfl, hlast⟩
      | false => simp [hlast, sourceOut] at h
  | inner i m =>
    rw [Merge.handle] at h ⊢
    split at h
    next => exact absurd h hsent
    next isOpen hi =>
      rcases List.mem_append.mp h with h | h
      · exact absurd h hsent
      · cases m with
        | sendNext v => simp [Message.event, innerOut] at h
        | sendError => simp [Message.event, innerOut] at h
        | sendCompleted =>
          simp [Message.event, innerOut] at h
          simpa [Message.event] using h

/-- Streams are closed by their completion, where nothing fails. -/
theorem inners_handle {s : Merge α} {e : BindEvent α} {es : List (BindEvent α)} {ended : Bool}
    (hproper : Proper s.inners.length ended (e :: es)) (hi : (s.handle e).inners[i]? = some false) :
    s.inners[i]? = some false ∨ e = .inner i .sendCompleted := by
  cases e with
  | next signal checked =>
    rcases getElem?_append_cases hi with hi | ⟨-, h⟩
    · exact Or.inl hi
    · cases h
  | stop checked => exact Or.inl hi
  | error => exact Or.inl hi
  | completed => exact Or.inl hi
  | inner j m =>
    obtain ⟨hj, herror, -⟩ := hproper
    rw [Merge.handle, List.getElem?_eq_getElem hj] at hi
    rcases getElem?_set_cases hi with ⟨rfl, h⟩ | ⟨-, hi⟩
    · cases m with
      | sendNext v =>
        refine Or.inl ?_
        rw [List.getElem?_eq_getElem hj, h]
        simp [Message.event]
      | sendError => cases herror
      | sendCompleted => exact Or.inr rfl
    · exact Or.inl hi

/-- There is a stream for every signal. -/
theorem length_handle (s : Merge α) (e : BindEvent α) :
    (s.handle e).inners.length = s.inners.length + (signalsOf [e]).length := by
  cases e with
  | next signal checked => exact List.length_append
  | stop checked => rfl
  | error => rfl
  | completed => rfl
  | inner i m =>
    rw [Merge.handle]
    split
    next => rfl
    next => exact List.length_set

/-- What follows an event of a proper run is proper. -/
theorem Proper.rest {s : Merge α} {e : BindEvent α} {es : List (BindEvent α)}
    (h : Proper s.inners.length (!s.isOpen) (e :: es)) :
    Proper (s.handle e).inners.length (!(s.handle e).isOpen) es := by
  rw [length_handle]
  cases e with
  | next signal checked => exact h.2
  | stop checked => exact h.2
  | error => exact h.elim
  | completed => exact h.2
  | inner i m =>
    have hopen : (s.handle (.inner i m)).isOpen = s.isOpen := by
      rw [Merge.handle]
      split
      next => rfl
      next => rfl
    rw [hopen]
    exact h.2.2

/-- **Completed with the last of the streams.** -/
theorem finished_of_completed : ∀ {es : List (BindEvent α)} {s : Merge α},
    Proper s.inners.length (!s.isOpen) es → .completed ∉ s.sent →
      .completed ∈ (es.foldl Merge.handle s).sent →
        (s.isOpen = false ∨ ∃ e ∈ es, e.endsSource = true) ∧
          ∀ i < s.inners.length + (signalsOf es).length,
            s.inners[i]? = some false ∨ .inner i .sendCompleted ∈ es := by
  intro es
  induction es with
  | nil =>
    intro s _ hsent hcompleted
    exact absurd hcompleted hsent
  | cons e es ih =>
    intro s hproper hsent hcompleted
    -- the run after the first event is proper for the streams after it
    have hrest : e.endsSource = true ∧ (s.handle e).isOpen = false ∨
        (s.handle e).isOpen = s.isOpen := by
      cases e with
      | stop checked => exact Or.inl ⟨rfl, rfl⟩
      | completed => exact Or.inl ⟨rfl, rfl⟩
      | next signal checked => exact Or.inr rfl
      | error => exact hproper.elim
      | inner j m =>
        refine Or.inr ?_
        rw [Merge.handle]
        split
        next => rfl
        next => rfl
    have hproper' := hproper.rest
    have hlength : (s.handle e).inners.length + (signalsOf es).length =
        s.inners.length + (signalsOf (e :: es)).length := by
      rw [length_handle, show e :: es = [e] ++ es from rfl, signalsOf_append, List.length_append,
        Nat.add_assoc]
    have hend : (s.handle e).isOpen = false →
        s.isOpen = false ∨ ∃ e' ∈ e :: es, e'.endsSource = true := by
      intro hclosed
      rcases hrest with ⟨hends, -⟩ | hsame
      · exact Or.inr ⟨e, List.mem_cons_self, hends⟩
      · exact Or.inl (hsame.symm.trans hclosed)
    have hinner : ∀ i, (s.handle e).inners[i]? = some false →
        s.inners[i]? = some false ∨ .inner i .sendCompleted ∈ e :: es := by
      intro i hi
      rcases inners_handle hproper hi with h | rfl
      · exact Or.inl h
      · exact Or.inr List.mem_cons_self
    rw [← hlength]
    by_cases hnow : Event.completed ∈ (s.handle e).sent
    · obtain ⟨hclosed, hall⟩ := completed_handle hsent hnow
      rw [hclosed] at hproper'
      refine ⟨hend hclosed, fun i hi => ?_⟩
      rw [signalsOf_of_ended hproper', List.length_nil, Nat.add_zero] at hi
      refine hinner i ?_
      have hopen := allClosed_iff.mp hall i
      rw [List.getElem?_eq_getElem hi] at hopen ⊢
      cases hget : (s.handle e).inners[i] with
      | true => exact absurd (congrArg some hget) hopen
      | false => rfl
    · obtain ⟨hended, hfinished⟩ := ih hproper' hnow hcompleted
      refine ⟨?_, fun i hi => ?_⟩
      · rcases hended with hclosed | ⟨e', he', hends⟩
        · exact hend hclosed
        · exact Or.inr ⟨e', List.mem_cons_of_mem e he', hends⟩
      · rcases hfinished i hi with hi | hi
        · exact hinner i hi
        · exact Or.inr (List.mem_cons_of_mem e hi)

/-! ### An array that loses two signals at once -/

/-- The source maps its values to `signals`, completes, and of the signals complete those with
numbers `js`. -/
def completing (signals : List Ref) (js : List ℕ) : List (BindEvent α) :=
  signals.map (fun x => .next x false) ++ .completed :: js.map fun j => .inner j .sendCompleted

theorem signalsOf_completing (signals : List Ref) (js : List ℕ) :
    signalsOf (completing signals js : List (BindEvent α)) = signals := by
  have hinners : signalsOf (js.map fun j => (.inner j .sendCompleted : BindEvent α)) = [] :=
    List.filterMap_eq_nil_iff.mpr fun e he => by
      obtain ⟨j, -, rfl⟩ := List.mem_map.mp he
      rfl
  rw [completing, signalsOf_append]
  show signalsOf (signals.map _) ++ signalsOf (js.map _) = signals
  rw [hinners, List.append_nil, signalsOf, List.filterMap_map]
  exact List.filterMap_some

theorem proper_nexts {n : ℕ} {es : List (BindEvent α)} : ∀ (signals : List Ref) {m : ℕ},
    m + signals.length = n → Proper n false es →
      Proper m false (signals.map (fun x => .next x false) ++ es)
  | [], _, hm, h => by
    obtain rfl := hm
    exact h
  | _ :: signals, m, hm, h => by
    refine ⟨rfl, proper_nexts signals ?_ h⟩
    rw [← hm, List.length_cons]
    omega

theorem proper_completions {n : ℕ} : ∀ (js : List ℕ), (∀ j ∈ js, j < n) →
    Proper n true (js.map fun j => (.inner j .sendCompleted : BindEvent α))
  | [], _ => trivial
  | j :: js, h => by
    obtain ⟨hj, hjs⟩ := List.forall_mem_cons.mp h
    exact ⟨hj, rfl, proper_completions js hjs⟩

theorem proper_completing {signals : List Ref} {js : List ℕ}
    (hjs : ∀ j ∈ js, j < signals.length) :
    Proper 0 false (completing signals js : List (BindEvent α)) :=
  proper_nexts signals (Nat.zero_add _) ⟨rfl, proper_completions js hjs⟩

/-- Nothing but completions has been sent, and one if the array is empty. -/
structure Bind.Completes (b : Bind α) : Prop where
  only : ∀ e ∈ b.sent, e = .completed
  completed : b.signals = [] → .completed ∈ b.sent

theorem Bind.Completes.completeSignal (h : b.Completes) (signal f : Ref) :
    (b.completeSignal signal f).Completes := by
  unfold Bind.completeSignal
  dsimp only
  split
  next =>
    refine ⟨fun e he => ?_, fun _ => List.mem_append_right _ (List.mem_singleton_self _)⟩
    rcases List.mem_append.mp he with he | he
    · exact h.only e he
    · exact List.mem_singleton.mp he
  next hsome => exact ⟨h.only, fun hnone => absurd hnone hsome⟩

/-- Such a subscriber hears a completion. -/
theorem Bind.Completes.heard (h : b.Completes) (hnone : b.signals = []) :
    .completed ∈ Reactive.heard true b.sent := by
  cases hsent : b.sent with
  | nil =>
    have hcompleted := h.completed hnone
    rw [hsent] at hcompleted
    cases hcompleted
  | cons e es =>
    obtain rfl := h.only e (hsent ▸ List.mem_cons_self)
    exact List.mem_cons_self

/-- All signals that the source is mapped to are subscribed to. -/
theorem foldl_nexts (source : Ref) : ∀ (signals : List Ref) {b : Bind α},
    b.compoundDisposable.disposed = false → ∃ compoundDisposable,
      (signals.map fun x => .next x false).foldl (Bind.handle source) b =
        ⟨b.signals ++ signals, compoundDisposable, b.subscribed ++ signals, b.sent⟩
  | [], b, _ => ⟨b.compoundDisposable, by simp⟩
  | x :: signals, b, hopen => by
    have hopen' : (b.addSignal x).compoundDisposable.disposed = false :=
      (RACCompoundDisposable.addDisposable_spec hopen _).2.1
    obtain ⟨c, hc⟩ := foldl_nexts source signals hopen'
    refine ⟨c, ?_⟩
    rw [List.map_cons, List.foldl_cons, Bind.handle, if_neg (check_passes hopen false),
      hc]
    simp [Bind.addSignal]

/-- Every signal that completes is gone from the array. -/
theorem foldl_completions (source : Ref) : ∀ (js : List ℕ) {b b' : Bind α}, b.Completes →
    (js.map fun j => .inner j .sendCompleted).foldl (Bind.handle source) b = b' →
      b'.Completes ∧ ∀ x ∈ b'.signals, x ∈ b.signals ∧ ∀ j ∈ js, b.subscribed[j]? ≠ some x
  | [], b, _, h, rfl => ⟨h, fun x hx => ⟨hx, fun j hj => by cases hj⟩⟩
  | j :: js, b, b', h, hb' => by
    rw [List.map_cons, List.foldl_cons] at hb'
    cases hj : b.subscribed[j]? with
    | none =>
      have hsame : b.handle source (.inner j .sendCompleted) = b := by
        simp only [Bind.handle, hj]
      rw [hsame] at hb'
      obtain ⟨hcompletes, hmem⟩ := foldl_completions source js h hb'
      refine ⟨hcompletes, fun x hx => ?_⟩
      obtain ⟨hold, hrest⟩ := hmem x hx
      refine ⟨hold, List.forall_mem_cons.mpr ⟨?_, hrest⟩⟩
      rw [hj]
      exact fun hsome => by cases hsome
    | some signal =>
      have hhandle : b.handle source (.inner j .sendCompleted) =
          b.completeSignal signal (j + 1) := by
        simp only [Bind.handle, hj]
      rw [hhandle] at hb'
      obtain ⟨hcompletes, hmem⟩ := foldl_completions source js (h.completeSignal _ _) hb'
      refine ⟨hcompletes, fun x hx => ?_⟩
      obtain ⟨hx, hrest⟩ := hmem x hx
      obtain ⟨hold, hne⟩ := mem_completeSignal.mp hx
      rw [subscribed_completeSignal] at hrest
      refine ⟨hold, List.forall_mem_cons.mpr ⟨fun hsome => ?_, hrest⟩⟩
      exact hne (Option.some.inj (hsome.symm.trans hj))

/-- **Completed too early**: where a signal occurs a second time as number `j`, its first
occurrence takes it away, so that the end of the others is enough. -/
theorem completed_without {source : Ref} {signals : List Ref} {j : ℕ} {x : Ref}
    (hj : signals[j]? = some x) (hfirst : x = source ∨ ∃ i ≠ j, signals[i]? = some x) :
    .completed ∈ heard true (Bind.run source (completing signals
      ((List.range signals.length).filter (· ≠ j)) : List (BindEvent α))).sent := by
  obtain ⟨c, hnexts⟩ := foldl_nexts source signals
    (show (Bind.new source : Bind α).compoundDisposable.disposed = false from rfl)
  have hstart : (⟨source :: signals, c, signals, []⟩ : Bind α).Completes :=
    ⟨fun e he => absurd he List.not_mem_nil, fun hnil => absurd hnil (List.cons_ne_nil _ _)⟩
  obtain ⟨hcompletes, hmem⟩ := foldl_completions source
    ((List.range signals.length).filter (· ≠ j)) (hstart.completeSignal source sourceDisposable) rfl
  -- every signal of the array is taken away under a number that is not `j`
  have hgone : ∀ y ∈ signals, y ≠ source → ∃ i ≠ j, signals[i]? = some y := by
    intro y hy hne
    obtain ⟨i, hi⟩ := List.mem_iff_getElem?.mp hy
    by_cases hij : i = j
    · subst hij
      obtain rfl := Option.some.inj (hi.symm.trans hj)
      exact hfirst.resolve_left hne
    · exact ⟨i, hij, hi⟩
  rw [Bind.run, completing, List.foldl_append, hnexts, List.foldl_cons]
  refine hcompletes.heard (List.eq_nil_iff_forall_not_mem.mpr fun y hy => ?_)
  obtain ⟨hy, hrest⟩ := hmem y hy
  obtain ⟨hy, hne⟩ := mem_completeSignal.mp hy
  obtain ⟨i, hij, hi⟩ := hgone y ((List.mem_cons.mp hy).resolve_left hne) hne
  refine hrest i ?_ ((congrArg (·[i]?) (subscribed_completeSignal ..)).trans hi)
  rw [List.mem_filter, List.mem_range]
  exact ⟨(List.getElem?_eq_some_iff.mp hi).1, by simpa using hij⟩

/-- **Just as long as the signals differ**: the subscriber hears completion only after the source
and each signal it was mapped to have ended, in all runs where nothing fails, if and only if the
source and the signals are all different. -/
theorem bind_waits_for_all_iff (source : Ref) (signals : List Ref) :
    (∀ es : List (BindEvent α), signalsOf es = signals → Proper 0 false es →
      .completed ∈ heard true (Bind.run source es).sent → Finished signals.length es) ↔
        (source :: signals).Nodup := by
  constructor
  · intro h
    rw [List.nodup_iff_getElem?_ne_getElem?]
    intro i j hij hj hsame
    obtain _ | j := j
    · omega
    have hj' : j < signals.length := Nat.lt_of_succ_lt_succ hj
    -- the signal with number `j` never completes
    have hfirst : signals[j] = source ∨ ∃ i ≠ j, signals[i]? = some signals[j] := by
      cases i with
      | zero =>
        rw [List.getElem?_cons_zero, List.getElem?_cons_succ, List.getElem?_eq_getElem hj'] at hsame
        exact Or.inl (Option.some.inj hsame).symm
      | succ i =>
        rw [List.getElem?_cons_succ, List.getElem?_cons_succ, List.getElem?_eq_getElem hj'] at hsame
        exact Or.inr ⟨i, by omega, hsame⟩
    have hproper : ∀ k ∈ (List.range signals.length).filter (· ≠ j), k < signals.length :=
      fun k hk => List.mem_range.mp (List.mem_filter.mp hk).1
    obtain ⟨-, hfinished⟩ := h _ (signalsOf_completing signals _) (proper_completing hproper)
      (completed_without (List.getElem?_eq_getElem hj') hfirst)
    have hcompletes := hfinished j hj'
    simp [completing] at hcompletes
  · rintro hnodup es rfl hproper hcompleted
    have hsent : .completed ∈ (Merge.run es).sent := by
      refine heard_subset true _ ?_
      rcases alike_or_ended source es hnodup with ⟨halike, -⟩ | hended
      · rwa [← halike.sent_eq]
      · rwa [← hended.heard_eq]
    obtain ⟨hended, hfinished⟩ :=
      finished_of_completed (s := Merge.new) hproper (by simp [Merge.new]) hsent
    refine ⟨hended.resolve_left (fun hclosed => by cases hclosed), fun i hi => ?_⟩
    refine (hfinished i ?_).resolve_left ?_
    · rwa [Merge.new, List.length_nil, Nat.zero_add]
    · intro hnone
      cases hnone

end LANScan.ReactiveCocoa
