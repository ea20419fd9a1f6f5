import LANScan.Machine
import Mathlib.Data.List.Basic

/-!
# The terminal

`insertText` appends a string to a buffer on the main thread and starts a worker
unless one is already typing; the worker takes the strings out of the buffer and
posts their characters to the main queue, one by one.  Each access to the buffer and
to the flag is a step of its own, so the main thread, the worker and the main queue
interleave freely.  Characters are arbitrary.

## Main definitions

* `HackerTerminal`, `HackerTerminal.next`, `terminal` — the state and its steps.
* `Turn` — who is in charge of the flag.
* `Sound` — the invariant of every run.
* `Timely` — the guard of a step: the flag is not read while a worker is about to
  clear it with strings left in the buffer.
* `Watched` — the invariant of timely runs.

## Main results

* `terminal_conserves` — **no character is lost, duplicated or reordered, and at
  most one worker exists.**
* `terminal_strands_nothing` — **timely runs strand no text, and every untimely step
  can strand some.**
-/

namespace LANScan

variable {χ : Type}

/-! ### The state -/

/-- How far the call of `insertText` on the main thread has come. -/
inductive InsertText
  /-- No call is in progress. -/
  | returned
  /-- The text is in the buffer, the flag is about to be read. -/
  | appended
  /-- The guard has passed, the flag is about to be set. -/
  | starting
  /-- The flag is set, the worker is about to be dispatched. -/
  | dispatching
  deriving DecidableEq, Repr

/-- How far a worker has come. -/
inductive Worker (χ : Type)
  /-- About to look whether the buffer holds a string. -/
  | counting
  /-- About to remove the first string. -/
  | removing
  /-- About to post these characters. -/
  | typing (characters : List χ)
  /-- Out of the loop, about to clear the flag. -/
  | clearing
  deriving DecidableEq, Repr

/-- The characters a worker still holds. -/
def Worker.held : Worker χ → List χ
  | typing characters => characters
  | _ => []

/-- The terminal: what it shows, its buffer, the call and the workers under way, and what has been
handed to it. -/
structure HackerTerminal (χ : Type) where
  text : List χ
  /-- The characters on the main queue. -/
  posted : List χ
  buffer : List (List χ)
  isTyping : Bool
  main : InsertText
  /-- The workers scheduled or running. -/
  workers : List (Worker χ)
  /-- All strings appended to the buffer so far. -/
  appended : List (List χ)
  deriving DecidableEq, Repr

/-- The steps of the main thread, of a worker and of the main queue. -/
inductive TerminalEvent (χ : Type)
  /-- A call of `insertText`, up to the append. -/
  | insertText (text : List χ)
  | readIsTyping
  | setIsTyping
  | dispatchWorker
  | workerMoved (i : ℕ)
  /-- The first block of the main queue runs. -/
  | mainQueue
  deriving DecidableEq, Repr

namespace HackerTerminal

/-- The effect of a step; `none` when it cannot be made, or when it removes from an
empty buffer. -/
def next (t : HackerTerminal χ) : TerminalEvent χ → Option (HackerTerminal χ)
  | .insertText text =>
    if t.main = .returned then
      some { t with
        buffer := t.buffer ++ [text]
        appended := t.appended ++ [text]
        main := .appended }
    else none
  | .readIsTyping =>
    if t.main = .appended then
      some { t with main := if t.isTyping then .returned else .starting }
    else none
  | .setIsTyping =>
    if t.main = .starting then some { t with isTyping := true, main := .dispatching } else none
  | .dispatchWorker =>
    if t.main = .dispatching then
      some { t with workers := t.workers ++ [.counting], main := .returned }
    else none
  | .workerMoved i =>
    match t.workers[i]? with
    | none => none
    | some .counting =>
      some { t with
        workers := t.workers.set i (if 0 < t.buffer.length then .removing else .clearing) }
    | some .removing =>
      match t.buffer with
      | [] => none
      | characters :: buffer =>
        some { t with buffer := buffer, workers := t.workers.set i (.typing characters) }
    | some (.typing []) => some { t with workers := t.workers.set i .counting }
    | some (.typing (c :: characters)) =>
      some { t with
        posted := t.posted ++ [c]
        workers := t.workers.set i (.typing characters) }
    | some .clearing => some { t with isTyping := false, workers := t.workers.eraseIdx i }
  | .mainQueue =>
    -- the main queue runs nothing during a call on the main thread
    if t.main = .returned then
      match t.posted with
      | [] => none
      | c :: posted => some { t with text := t.text ++ [c], posted := posted }
    else none

/-- A new terminal. -/
def new (initial : List χ) : HackerTerminal χ where
  text := initial
  posted := []
  buffer := []
  isTyping := false
  main := .returned
  workers := []
  appended := []

end HackerTerminal

/-- The terminal as a machine. -/
def terminal (initial : List χ) : Machine (HackerTerminal χ) (TerminalEvent χ) :=
  .ofNext (.new initial) HackerTerminal.next

/-! ### Who is in charge -/

/-- The flag, the call on the main thread and the workers go together. -/
inductive Turn : Bool → InsertText → List (Worker χ) → Prop
  /-- Nobody types. -/
  | off {m : InsertText} (hm : m ≠ .dispatching) : Turn false m []
  /-- The main thread has set the flag for a worker to come. -/
  | handing : Turn true .dispatching []
  /-- The worker types, and the main thread starts no other. -/
  | on {m : InsertText} (hm : m = .returned ∨ m = .appended) (w : Worker χ) : Turn true m [w]

/-- Workers move one at a time: there is only one. -/
theorem Turn.worker {isTyping : Bool} {m : InsertText} {ws : List (Worker χ)}
    (h : Turn isTyping m ws) {i : ℕ} {w : Worker χ} (hw : ws[i]? = some w) :
    i = 0 ∧ ws = [w] ∧ isTyping = true ∧ (m = .returned ∨ m = .appended) := by
  cases h with
  | off => cases hw
  | handing => cases hw
  | on hm w' =>
    cases i with
    | zero =>
      obtain rfl := Option.some.inj hw
      exact ⟨rfl, rfl, rfl, hm⟩
    | succ i => cases hw

/-- At most one worker is scheduled or running, or about to be. -/
theorem Turn.length_le {isTyping : Bool} {m : InsertText} {ws : List (Worker χ)}
    (h : Turn isTyping m ws) : ws.length + (if m = .dispatching then 1 else 0) ≤ 1 := by
  cases h with
  | off hm => simp [hm]
  | handing => simp
  | on hm w => rcases hm with rfl | rfl <;> simp

/-- What holds in every reachable state. -/
structure Sound (initial : List χ) (t : HackerTerminal χ) : Prop where
  turn : Turn t.isTyping t.main t.workers
  /-- A worker about to remove a string has one to remove. -/
  removing : .removing ∈ t.workers → t.buffer ≠ []
  /-- Every character is in one of four places, in order. -/
  conserved : initial ++ t.appended.flatten =
    t.text ++ t.posted ++ t.workers.flatMap Worker.held ++ t.buffer.flatten

theorem sound_new (initial : List χ) : Sound initial (.new initial) where
  turn := .off fun h => by cases h
  removing := fun h => by cases h
  conserved := by simp [HackerTerminal.new]

/-- The moves of the worker keep the invariant. -/
theorem Sound.workerMoved {initial : List χ} {t t' : HackerTerminal χ} {i : ℕ}
    (h : Sound initial t) (hs : t.next (.workerMoved i) = some t') : Sound initial t' := by
  obtain ⟨turn, removing, conserved⟩ := h
  unfold HackerTerminal.next at hs
  cases hw : t.workers[i]? with
  | none => simp [hw] at hs
  | some w =>
    obtain ⟨rfl, hws, htyping, hm⟩ := turn.worker hw
    rw [hws] at conserved removing
    cases w with
    | counting =>
      obtain rfl : _ = t' := by simpa [hw] using hs
      refine ⟨?_, ?_, ?_⟩
      · simpa [hws, htyping] using Turn.on hm _
      · -- the count that was read still stands: only the worker removes
        intro hmem
        by_cases hcount : 0 < t.buffer.length
        · exact List.ne_nil_of_length_pos hcount
        · simp [hws, hcount] at hmem
      · by_cases hcount : 0 < t.buffer.length <;> simpa [hws, hcount, Worker.held] using conserved
    | removing =>
      obtain ⟨characters, buffer, hbuffer⟩ :=
        List.exists_cons_of_ne_nil (removing (List.mem_singleton_self _))
      obtain rfl : _ = t' := by simpa [hw, hbuffer] using hs
      refine ⟨?_, ?_, ?_⟩
      · simpa [hws, htyping] using Turn.on hm _
      · simp [hws]
      · simpa [hws, hbuffer, Worker.held] using conserved
    | typing characters =>
      cases characters with
      | nil =>
        obtain rfl : _ = t' := by simpa [hw] using hs
        refine ⟨?_, ?_, ?_⟩
        · simpa [hws, htyping] using Turn.on hm _
        · simp [hws]
        · simpa [hws, Worker.held] using conserved
      | cons c characters =>
        obtain rfl : _ = t' := by simpa [hw] using hs
        refine ⟨?_, ?_, ?_⟩
        · simpa [hws, htyping] using Turn.on hm _
        · simp [hws]
        · simpa [hws, Worker.held] using conserved
    | clearing =>
      obtain rfl : _ = t' := by simpa [hw] using hs
      refine ⟨?_, ?_, ?_⟩
      · rw [hws]
        apply Turn.off
        rcases hm with hm | hm <;> simp [hm]
      · simp [hws]
      · simpa [hws, Worker.held] using conserved

theorem Turn.insertText {isTyping : Bool} {ws : List (Worker χ)}
    (h : Turn isTyping .returned ws) : Turn isTyping .appended ws := by
  cases h with
  | off => exact .off fun h => by cases h
  | on _ w => exact .on (Or.inr rfl) w

theorem Turn.readIsTyping {isTyping : Bool} {ws : List (Worker χ)}
    (h : Turn isTyping .appended ws) :
    Turn isTyping (if isTyping then .returned else .starting) ws := by
  cases h with
  | off => exact .off fun h => by cases h
  | on _ w => exact .on (Or.inl rfl) w

theorem Turn.setIsTyping {isTyping : Bool} {ws : List (Worker χ)}
    (h : Turn isTyping .starting ws) : Turn true .dispatching ws := by
  cases h with
  | off => exact .handing
  | on hm => rcases hm with hm | hm <;> cases hm

theorem Turn.dispatchWorker {isTyping : Bool} {ws : List (Worker χ)}
    (h : Turn isTyping .dispatching ws) : ws = [] ∧ Turn isTyping .returned (ws ++ [.counting]) := by
  cases h with
  | off hm => exact absurd rfl hm
  | handing => exact ⟨rfl, .on (Or.inl rfl) _⟩
  | on hm => rcases hm with hm | hm <;> cases hm

/-- **Every step keeps the invariant.** -/
theorem Sound.step {initial : List χ} {t t' : HackerTerminal χ} {e : TerminalEvent χ}
    (h : Sound initial t) (hs : t.next e = some t') : Sound initial t' := by
  cases e with
  | insertText text =>
    obtain ⟨hm, hs⟩ := Option.ite_none_right_eq_some.mp hs
    obtain rfl := Option.some.inj hs
    refine ⟨(hm ▸ h.turn).insertText, fun _ => by simp, ?_⟩
    have hconserved := h.conserved
    simp only [List.flatten_append, ← List.append_assoc, ← hconserved]
  | readIsTyping =>
    obtain ⟨hm, hs⟩ := Option.ite_none_right_eq_some.mp hs
    obtain rfl := Option.some.inj hs
    exact ⟨(hm ▸ h.turn).readIsTyping, h.removing, h.conserved⟩
  | setIsTyping =>
    obtain ⟨hm, hs⟩ := Option.ite_none_right_eq_some.mp hs
    obtain rfl := Option.some.inj hs
    exact ⟨(hm ▸ h.turn).setIsTyping, h.removing, h.conserved⟩
  | dispatchWorker =>
    obtain ⟨hm, hs⟩ := Option.ite_none_right_eq_some.mp hs
    obtain rfl := Option.some.inj hs
    obtain ⟨hws, hturn⟩ := (hm ▸ h.turn).dispatchWorker
    refine ⟨hturn, ?_, ?_⟩
    · simp [hws]
    · have hconserved := h.conserved
      simpa [hws, Worker.held] using hconserved
  | workerMoved i => exact h.workerMoved hs
  | mainQueue =>
    obtain ⟨hm, hs⟩ := Option.ite_none_right_eq_some.mp hs
    have hconserved := h.conserved
    cases hposted : t.posted with
    | nil => simp [hposted] at hs
    | cons c posted =>
      obtain rfl : _ = t' := by simpa [hposted] using hs
      exact ⟨h.turn, h.removing, by simpa [hposted] using hconserved⟩

theorem sound_of_reachable {initial : List χ} {t : HackerTerminal χ}
    (h : (terminal initial).Reachable t) : Sound initial t :=
  h.invariant (sound_new initial) fun _ _ _ hi hs => hi.step hs

/-- **The terminal never reorders, duplicates or loses characters in transit**: at
most one worker is scheduled or running, every character appended is shown, posted,
held by the worker or in the buffer, in this order, what is shown is a prefix of what
is intended, and nothing is removed from an empty buffer. -/
theorem terminal_conserves (initial : List χ) {t : HackerTerminal χ}
    (h : (terminal initial).Reachable t) :
    t.workers.length + (if t.main = .dispatching then 1 else 0) ≤ 1 ∧
    initial ++ t.appended.flatten =
      t.text ++ t.posted ++ t.workers.flatMap Worker.held ++ t.buffer.flatten ∧
    t.text <+: initial ++ t.appended.flatten ∧
    (.removing ∈ t.workers → t.buffer ≠ []) := by
  have hsound := sound_of_reachable h
  refine ⟨hsound.turn.length_le, hsound.conserved, ?_, hsound.removing⟩
  rw [hsound.conserved, List.append_assoc, List.append_assoc]
  exact List.prefix_append _ _

/-- The worker empties the buffer before the second call. -/
def timelyRun : List (TerminalEvent Char) :=
  [.insertText ['a'], .readIsTyping, .setIsTyping, .dispatchWorker,
    .workerMoved 0, .workerMoved 0, .workerMoved 0, .workerMoved 0,
    .insertText ['b'], .readIsTyping, .workerMoved 0, .workerMoved 0, .workerMoved 0,
    .workerMoved 0, .workerMoved 0, .workerMoved 0, .mainQueue, .mainQueue]

theorem terminal_conserves_timelyRun :
    ∃ t, (terminal [' ']).Reachable t ∧ t.workers = [.typing ['a']] ∧
      [' '] ++ t.appended.flatten =
        t.text ++ t.posted ++ t.workers.flatMap Worker.held ++ t.buffer.flatten := by
  have h : (terminal [' ']).Reachable
      ⟨[' '], [], [], true, .returned, [.typing ['a']], [['a']]⟩ :=
    Machine.reachable_of_foldlM (timelyRun.take 6) (by decide)
  exact ⟨_, h, rfl, (terminal_conserves [' '] h).2.1⟩

/-! ### Timely runs -/

/-- The guard on the steps: the flag is not read while a worker is about to clear it
with strings left in the buffer. -/
def Timely (t : HackerTerminal χ) (e : TerminalEvent χ) : Prop :=
  e = .readIsTyping → .clearing ∈ t.workers → t.buffer = []

instance [DecidableEq χ] (t : HackerTerminal χ) (e : TerminalEvent χ) : Decidable (Timely t e) :=
  inferInstanceAs (Decidable (_ → _ → _))

/-- Somebody will look at the buffer again while it holds a string: the call in
progress, or a worker that has not left its loop. -/
def Watched (t : HackerTerminal χ) : Prop :=
  t.buffer ≠ [] → t.main ≠ .returned ∨ ∃ w ∈ t.workers, w ≠ .clearing

theorem Watched.workerMoved {initial : List χ} {t t' : HackerTerminal χ} {i : ℕ}
    (h : Watched t) (hsound : Sound initial t) (hs : t.next (.workerMoved i) = some t') :
    Watched t' := by
  obtain ⟨turn, removing, -⟩ := hsound
  unfold HackerTerminal.next at hs
  cases hw : t.workers[i]? with
  | none => simp [hw] at hs
  | some w =>
    obtain ⟨rfl, hws, htyping, hm⟩ := turn.worker hw
    rw [hws] at removing
    cases w with
    | counting =>
      obtain rfl : _ = t' := by simpa [hw] using hs
      intro hne
      exact Or.inr ⟨.removing, by simp [hws, List.length_pos_iff.mpr hne], by simp⟩
    | removing =>
      obtain ⟨characters, buffer, hbuffer⟩ :=
        List.exists_cons_of_ne_nil (removing (List.mem_singleton_self _))
      obtain rfl : _ = t' := by simpa [hw, hbuffer] using hs
      exact fun _ => Or.inr ⟨.typing characters, by simp [hws], by simp⟩
    | typing characters =>
      cases characters with
      | nil =>
        obtain rfl : _ = t' := by simpa [hw] using hs
        exact fun _ => Or.inr ⟨.counting, by simp [hws], by simp⟩
      | cons c characters =>
        obtain rfl : _ = t' := by simpa [hw] using hs
        exact fun _ => Or.inr ⟨.typing characters, by simp [hws], by simp⟩
    | clearing =>
      obtain rfl : _ = t' := by simpa [hw] using hs
      intro hne
      -- the only worker was clearing, so the call in progress watches
      rcases h hne with hmain | ⟨w, hmem, hclear⟩
      · exact Or.inl hmain
      · rw [hws, List.mem_singleton] at hmem
        exact absurd hmem hclear

/-- **A timely step keeps the buffer watched.** -/
theorem Watched.step {initial : List χ} {t t' : HackerTerminal χ} {e : TerminalEvent χ}
    (h : Watched t) (hsound : Sound initial t) (htimely : Timely t e) (hs : t.next e = some t') :
    Watched t' := by
  cases e with
  | insertText text =>
    obtain ⟨-, hs⟩ := Option.ite_none_right_eq_some.mp hs
    obtain rfl := Option.some.inj hs
    exact fun _ => Or.inl (by simp)
  | readIsTyping =>
    obtain ⟨hm, hs⟩ := Option.ite_none_right_eq_some.mp hs
    obtain rfl := Option.some.inj hs
    intro hne
    cases htyping : t.isTyping with
    | false => exact Or.inl (by simp)
    | true =>
      -- the flag is set, so there is a worker, and it is timely
      have hturn := hsound.turn
      rw [htyping, hm] at hturn
      generalize hws : t.workers = ws at hturn
      cases hturn with
      | on _ w =>
        refine Or.inr ⟨w, by simp, ?_⟩
        rintro rfl
        exact hne (htimely rfl (by simp [hws]))
  | setIsTyping =>
    obtain ⟨-, hs⟩ := Option.ite_none_right_eq_some.mp hs
    obtain rfl := Option.some.inj hs
    exact fun _ => Or.inl (by simp)
  | dispatchWorker =>
    obtain ⟨-, hs⟩ := Option.ite_none_right_eq_some.mp hs
    obtain rfl := Option.some.inj hs
    exact fun _ => Or.inr ⟨.counting, by simp, by simp⟩
  | workerMoved i => exact h.workerMoved hsound hs
  | mainQueue =>
    obtain ⟨-, hs⟩ := Option.ite_none_right_eq_some.mp hs
    cases hposted : t.posted with
    | nil => simp [hposted] at hs
    | cons c posted =>
      obtain rfl : _ = t' := by simpa [hposted] using hs
      exact h

theorem watched_of_reachWhile {initial : List χ} {t : HackerTerminal χ}
    (h : (terminal initial).ReachWhile Timely t) : Sound initial t ∧ Watched t :=
  h.invariant (I := fun t => Sound initial t ∧ Watched t)
    ⟨sound_new initial, fun hne => absurd rfl hne⟩
    fun _ _ _ hi htimely hs => ⟨hi.1.step hs, hi.2.step hi.1 htimely hs⟩

/-- The main queue can always be emptied between two calls. -/
theorem exists_steps_shown (initial : List χ) : ∀ (posted : List χ) (t : HackerTerminal χ),
    t.main = .returned → t.posted = posted →
      ∃ n t', (terminal initial).Steps (fun _ _ => True) t n t' ∧ t'.main = .returned ∧
        t'.posted = [] ∧ t'.workers = t.workers ∧ t'.buffer = t.buffer := by
  intro posted
  induction posted with
  | nil => exact fun t hm hp => ⟨0, t, .refl t, hm, hp, rfl, rfl⟩
  | cons c posted ih =>
    intro t hm hp
    have hs : (terminal initial).Step t .mainQueue
        { t with text := t.text ++ [c], posted := posted } := by
      show t.next .mainQueue = _
      simp [HackerTerminal.next, hm, hp]
    obtain ⟨n, t', hsteps, hend⟩ := ih { t with text := t.text ++ [c], posted := posted } hm rfl
    exact ⟨n + 1, t', .step trivial hs hsteps, hend⟩

/-- An untimely step can strand text. -/
theorem exists_stranded {initial : List χ} {t t' : HackerTerminal χ} {e : TerminalEvent χ}
    (h : (terminal initial).Reachable t) (hs : t.next e = some t') (huntimely : ¬Timely t e) :
    ∃ n t'', (terminal initial).Steps (fun _ _ => True) t' n t'' ∧ t''.main = .returned ∧
      t''.workers = [] ∧ t''.posted = [] ∧ t''.buffer ≠ [] := by
  have hsound := sound_of_reachable h
  unfold Timely at huntimely
  simp only [not_forall] at huntimely
  obtain ⟨rfl, hclear, hne⟩ := huntimely
  obtain ⟨i, hi⟩ := List.mem_iff_getElem?.mp hclear
  obtain ⟨rfl, hws, htyping, -⟩ := hsound.turn.worker hi
  obtain ⟨-, hs⟩ := Option.ite_none_right_eq_some.mp hs
  obtain rfl := Option.some.inj hs
  -- the call returns, then the worker clears the flag
  have hs' : (terminal initial).Step { t with main := if t.isTyping then .returned else .starting }
      (.workerMoved 0) { t with main := .returned, isTyping := false, workers := [] } := by
    show HackerTerminal.next _ _ = _
    simp [HackerTerminal.next, hws, htyping]
  obtain ⟨n, t'', hsteps, hm, hp, hworkers, hbuffer⟩ := exists_steps_shown initial t.posted
    { t with main := .returned, isTyping := false, workers := [] } rfl rfl
  exact ⟨n + 1, t'', .step trivial hs' hsteps, hm, hworkers, hp, hbuffer ▸ hne⟩

/-- **The terminal strands no text in timely runs, and can in every other.**  In every
state of a timely run in which no call is in progress, no worker exists and nothing is
posted, the buffer is empty and everything is shown; and from every step that is not
timely a run leads to such a state with text left in the buffer. -/
theorem terminal_strands_nothing (initial : List χ) :
    (∀ t, (terminal initial).ReachWhile Timely t →
      t.main = .returned → t.workers = [] → t.posted = [] →
        t.buffer = [] ∧ t.text = initial ++ t.appended.flatten) ∧
    ∀ t e t', (terminal initial).Reachable t → (terminal initial).Step t e t' → ¬Timely t e →
      ∃ n t'', (terminal initial).Steps (fun _ _ => True) t' n t'' ∧ t''.main = .returned ∧
        t''.workers = [] ∧ t''.posted = [] ∧ t''.buffer ≠ [] := by
  refine ⟨fun t h hm hws hposted => ?_, fun t e t' h hs hu => exists_stranded h hs hu⟩
  obtain ⟨hsound, hwatched⟩ := watched_of_reachWhile h
  have hbuffer : t.buffer = [] := by
    by_contra hne
    rcases hwatched hne with hmain | ⟨w, hmem, -⟩
    · exact hmain hm
    · rw [hws] at hmem
      cases hmem
  refine ⟨hbuffer, ?_⟩
  have hconserved := hsound.conserved
  rw [hws, hposted, hbuffer] at hconserved
  simpa using hconserved.symm

theorem terminal_strands_nothing_timelyRun :
    ∃ t, (terminal [' ']).ReachWhile Timely t ∧ t.appended = [['a'], ['b']] ∧
      t.buffer = [] ∧ t.text = [' '] ++ t.appended.flatten := by
  have h : (terminal [' ']).ReachWhile Timely
      ⟨[' ', 'a', 'b'], [], [], false, .returned, [], [['a'], ['b']]⟩ :=
    Machine.reachWhile_of_foldlM timelyRun (by decide)
  exact ⟨_, h, rfl, (terminal_strands_nothing [' ']).1 _ h rfl rfl rfl⟩

/-- The second call reads the flag after the worker has found the buffer empty and
before it clears the flag. -/
theorem terminal_strands_text :
    ∃ t, (terminal [' ']).Reachable t ∧ t.main = .returned ∧ t.workers = [] ∧ t.posted = [] ∧
      t.buffer = [['b']] ∧ t.text = [' ', 'a'] ∧ t.appended = [['a'], ['b']] := by
  have h : (terminal [' ']).Reachable
      ⟨[' ', 'a'], [], [['b']], false, .returned, [], [['a'], ['b']]⟩ :=
    Machine.reachable_of_foldlM
      [.insertText ['a'], .readIsTyping, .setIsTyping, .dispatchWorker,
        .workerMoved 0, .workerMoved 0, .workerMoved 0, .workerMoved 0, .workerMoved 0,
        .insertText ['b'], .readIsTyping, .workerMoved 0, .mainQueue] (by decide)
  exact ⟨_, h, rfl, rfl, rfl, rfl, rfl, rfl⟩

end LANScan
