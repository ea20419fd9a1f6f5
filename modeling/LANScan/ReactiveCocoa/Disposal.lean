import LANScan.Cascade
import LANScan.ReactiveCocoa.CompoundDisposable
import Mathlib.Data.List.Perm.Basic

/-!
# Disposal across threads

Disposables hold each other, also in circles, and any thread may dispose of any of them or
move them around at any time.  A call is a sequence of atomic steps: a compare-and-swap of
the block pointer of a plain disposable, or a locked section of the others, with calls to
other disposables after it.  Here every call that has begun can make its next step, so a
run is an arbitrary interleaving.  What the block of a disposable does is calls like any
others.

## Main definitions

* `Node` — a disposable, with what has been attached to it.
* `Task`, `Disposables.perform` — a call between two of its steps, and its next step.
* `disposables` — disposables and their calls as a machine.

## Main results

* `Node.Moves` — **what a locked section does**: nothing attached is lost, and what an
  object that is disposed of holds is handed to the calls that dispose of it.
* `reachable_of_events` — computed runs are runs.
-/

namespace LANScan.ReactiveCocoa

/-! ### Disposables -/

/-- The variable `_disposeBlock` of a plain disposable. -/
inductive DisposeBlock
  /-- Already disposed of. -/
  | null
  /-- A pointer to the disposable itself: no logic to perform. -/
  | own
  | block
  deriving DecidableEq, Repr

/-- The classes of disposables. -/
inductive Kind
  | disposable
  | serial
  | compound
  deriving DecidableEq, Repr

/-- A disposable with its variables. -/
inductive Object
  | disposable (disposeBlock : DisposeBlock)
  | serial (d : RACSerialDisposable)
  | compound (d : RACCompoundDisposable)
  deriving DecidableEq, Repr

namespace Object

/-- Its property `disposed`. -/
def isDisposed : Object → Bool
  | disposable disposeBlock => disposeBlock = .null
  | serial d => d.disposed
  | compound d => d.disposed

/-- What a disposable holds. -/
def held : Object → List Ref
  | disposable _ => []
  | serial d => d.disposable.toList
  | compound d => d.contents

/-- The class of a disposable. -/
def kind : Object → Kind
  | disposable _ => .disposable
  | serial _ => .serial
  | compound _ => .compound

end Object

/-- A disposable, with two things recorded that it does not know: what was added to it and
not taken back while it was open, and whether it was created with a block. -/
structure Node where
  object : Object
  attached : List Ref
  hasBlock : Bool
  deriving DecidableEq, Repr

namespace Node

/-- A disposable without a block. -/
def init : Node := ⟨.disposable .own, [], false⟩

/-- A disposable with a block. -/
def initWithBlock : Node := ⟨.disposable .block, [], true⟩

/-- A serial disposable that holds nothing. -/
def serial : Node := ⟨.serial .new, [], false⟩

/-- A compound disposable that holds the given ones. -/
def compound (otherDisposables : List Ref) : Node :=
  ⟨.compound (.initWithDisposables otherDisposables), otherDisposables, false⟩

/-- The locked section of `addDisposable:`, and what it disposes of after it. -/
def addDisposable (n : Node) (d : Ref) : Option (Node × List Ref) :=
  match n.object with
  | .compound c =>
    let (c, shouldDispose) := c.addDisposable d
    some (⟨.compound c, n.attached ++ [d], n.hasBlock⟩, if shouldDispose then [d] else [])
  | _ => none

/-- The locked section of `removeDisposable:`. -/
def removeDisposable (n : Node) (d : Ref) : Option (Node × List Ref) :=
  match n.object with
  | .compound c =>
    let attached := if c.disposed then n.attached else n.attached.filter fun x => x != d
    some (⟨.compound (c.removeDisposable d), attached, n.hasBlock⟩, [])
  | _ => none

/-- The locked section of `swapInDisposable:`, and what it disposes of after it. -/
def swapInDisposable (n : Node) (newDisposable : Option Ref) : Option (Node × List Ref) :=
  match n.object with
  | .serial s =>
    let kept := if s.disposed then n.attached else []
    let (s, disposed) := s.swapInDisposable newDisposable
    some (⟨.serial s, kept ++ newDisposable.toList, n.hasBlock⟩, disposed)
  | _ => none

/-- The locked section of `dispose`, and what it disposes of after it. -/
def dispose (n : Node) : Option (Node × List Ref) :=
  match n.object with
  | .serial s =>
    let (s, disposed) := s.dispose
    some ({ n with object := .serial s }, disposed)
  | .compound c =>
    let (c, disposed) := c.dispose
    some ({ n with object := .compound c }, disposed)
  | .disposable _ => none

end Node

/-! ### Calls -/

/-- A message to a disposable. -/
inductive Call
  | dispose (d : Ref)
  | addDisposable (c d : Ref)
  | removeDisposable (c d : Ref)
  | swapInDisposable (s : Ref) (newDisposable : Option Ref)
  deriving DecidableEq, Repr

/-- A call before its next step. -/
inductive Task
  | begin (call : Call)
  /-- `dispose` has read `_disposeBlock`. -/
  | compareAndSwap (d : Ref) (blockPtr : DisposeBlock)
  /-- `dispose` is about to call the block. -/
  | runBlock (d : Ref)
  /-- `addDisposable:` has seen that the disposable is not disposed of. -/
  | lock (c d : Ref)
  deriving DecidableEq, Repr

/-- All disposables, the calls under way, and what has happened. -/
structure Disposables where
  nodes : List Node
  tasks : List Task
  /-- The disposables whose blocks have run. -/
  ran : List Ref
  /-- The disposables that somebody other than a disposable has disposed of. -/
  asked : List Ref
  deriving DecidableEq, Repr

namespace Disposables

/-- A locked section on the disposable `r`, and the calls after it. -/
def locked (s : Disposables) (r : Ref) (body : Node → Option (Node × List Ref)) :
    Option Disposables := do
  let n ← s.nodes[r]?
  let (n', disposed) ← body n
  return { s with
    nodes := s.nodes.set r n'
    tasks := s.tasks ++ disposed.map fun d => .begin (.dispose d) }

/-- The next step of a call. -/
def perform (s : Disposables) : Task → Option Disposables
  | .begin (.dispose d) => do
    let n ← s.nodes[d]?
    match n.object with
    | .disposable blockPtr => return { s with tasks := s.tasks ++ [.compareAndSwap d blockPtr] }
    | _ => s.locked d Node.dispose
  | .compareAndSwap d blockPtr => do
    let n ← s.nodes[d]?
    match n.object with
    | .disposable disposeBlock =>
      if disposeBlock = blockPtr then
        return { s with
          nodes := s.nodes.set d { n with object := .disposable .null }
          tasks := s.tasks ++ if blockPtr = .block then [.runBlock d] else [] }
      else
        -- another thread was faster: the loop reads the pointer again
        return { s with tasks := s.tasks ++ [.begin (.dispose d)] }
    | _ => none
  | .runBlock d => some { s with ran := s.ran ++ [d] }
  | .begin (.addDisposable c d) => do
    let n ← s.nodes[d]?
    if n.object.isDisposed then return s
    else return { s with tasks := s.tasks ++ [.lock c d] }
  | .lock c d => s.locked c fun n => n.addDisposable d
  | .begin (.removeDisposable c d) => s.locked c fun n => n.removeDisposable d
  | .begin (.swapInDisposable r d) => s.locked r fun n => n.swapInDisposable d

end Disposables

/-! ### The machine -/

/-- What can happen: a disposable is created, somebody calls one, or a call makes a step. -/
inductive DisposalEvent
  | init
  | initWithBlock
  | serial
  | compound (otherDisposables : List Ref)
  | call (call : Call)
  | step (i : ℕ)
  deriving DecidableEq, Repr

/-- There is a disposable of the given class. -/
def IsKind (nodes : List Node) (r : Ref) (kind : Kind) : Prop :=
  ∃ n, nodes[r]? = some n ∧ n.object.kind = kind

instance (nodes : List Node) (r : Ref) (kind : Kind) : Decidable (IsKind nodes r kind) :=
  decidable_of_iff (nodes[r]?.map (fun n => n.object.kind) = some kind)
    (by simp [IsKind, Option.map_eq_some_iff])

namespace Call

/-- The receiver exists and knows the message, the arguments exist, and a compound
disposable is not added to itself. -/
def Valid (nodes : List Node) : Call → Prop
  | dispose d => d < nodes.length
  | addDisposable c d => IsKind nodes c .compound ∧ d < nodes.length ∧ c ≠ d
  | removeDisposable c _ => IsKind nodes c .compound
  | swapInDisposable s newDisposable =>
    IsKind nodes s .serial ∧ ∀ d ∈ newDisposable, d < nodes.length

instance (nodes : List Node) : (call : Call) → Decidable (call.Valid nodes)
  | dispose _ => inferInstanceAs (Decidable (_ < _))
  | addDisposable .. => inferInstanceAs (Decidable (_ ∧ _ ∧ _))
  | removeDisposable .. => inferInstanceAs (Decidable (IsKind ..))
  | swapInDisposable .. => inferInstanceAs (Decidable (_ ∧ _))

end Call

namespace Disposables

/-- A disposable is created. -/
def create (s : Disposables) (n : Node) : Disposables := { s with nodes := s.nodes ++ [n] }

/-- A call from outside. -/
def receive (s : Disposables) (call : Call) : Disposables :=
  { s with
    tasks := s.tasks ++ [.begin call]
    asked := match call with
      | .dispose d => s.asked ++ [d]
      | _ => s.asked }

/-- What an event does; `none` is one that cannot happen. -/
def next (s : Disposables) : DisposalEvent → Option Disposables
  | .init => some (s.create .init)
  | .initWithBlock => some (s.create .initWithBlock)
  | .serial => some (s.create .serial)
  | .compound otherDisposables => some (s.create (.compound otherDisposables))
  | .call call => some (s.receive call)
  | .step i => do
    let task ← s.tasks[i]?
    { s with tasks := s.tasks.eraseIdx i }.perform task

/-- What the callers see to. -/
def Enabled (s : Disposables) : DisposalEvent → Prop
  | .compound otherDisposables => ∀ d ∈ otherDisposables, d < s.nodes.length
  | .call call => call.Valid s.nodes
  | _ => True

instance (s : Disposables) : (e : DisposalEvent) → Decidable (s.Enabled e)
  | .compound _ => inferInstanceAs (Decidable (∀ _ ∈ _, _))
  | .call call => inferInstanceAs (Decidable (call.Valid _))
  | .init => isTrue trivial
  | .initWithBlock => isTrue trivial
  | .serial => isTrue trivial
  | .step _ => isTrue trivial

end Disposables

/-- Disposables and their calls as a machine. -/
def disposables : Machine Disposables DisposalEvent where
  init := ⟨[], [], [], []⟩
  Step s e s' := s.Enabled e ∧ s.next e = some s'

/-- A computed run. -/
theorem reachable_of_events {s : Disposables} (es : List DisposalEvent)
    (h : es.foldlM (fun s e => if s.Enabled e then s.next e else none) ⟨[], [], [], []⟩ = some s) :
    disposables.Reachable s :=
  Machine.reachable_of_guarded (m := disposables) (fun _ _ _ hok hs => ⟨hok, hs⟩) es h

/-! ### Locked sections -/

namespace Node

/-- What is recorded about a disposable agrees with it. -/
structure Ok (n : Node) : Prop where
  mem_held_iff : n.object.isDisposed = false → ∀ d, d ∈ n.object.held ↔ d ∈ n.attached
  held_eq_nil : n.object.isDisposed = true → n.object.held = []
  hasBlock_iff : n.object.isDisposed = false →
    (n.object = .disposable .block ↔ n.hasBlock = true)
  hasBlock_eq : n.object.kind ≠ .disposable → n.hasBlock = false

/-- What a locked section does: an open disposable is changed, or it is disposed of with
all it holds, or the section comes late. -/
inductive Section (n n' : Node) (disposed : List Ref) : Prop
  | rewired (hopen : n.object.isDisposed = false) (hopen' : n'.object.isDisposed = false)
    (hdisposed : disposed = [])
  | closed (hopen : n.object.isDisposed = false) (hclosed' : n'.object.isDisposed = true)
    (hattached : n'.attached = n.attached) (hdisposed : disposed = n.object.held)
  | late (hclosed : n.object.isDisposed = true) (hclosed' : n'.object.isDisposed = true)
    (hattached : n'.attached = n.attached ++ disposed)

/-- A locked section that is given some disposables, and may be one that disposes. -/
structure Moves (given : List Ref) (disposes : Bool) (n n' : Node) (disposed : List Ref) :
    Prop where
  ok : n'.Ok
  kind_eq : n'.object.kind = n.object.kind
  isDisposed_eq : n'.object.isDisposed = (n.object.isDisposed || disposes)
  hasBlock_eq : n'.hasBlock = n.hasBlock
  moved : Section n n' disposed
  length_le : disposed.length + n'.object.held.length ≤ n.object.held.length + given.length
  mem : ∀ x, x ∈ disposed ∨ x ∈ n'.object.held → x ∈ n.object.held ∨ x ∈ given

variable {n n' : Node} {disposed : List Ref}

theorem ok_init : init.Ok where
  mem_held_iff _ _ := Iff.rfl
  held_eq_nil h := by cases h
  hasBlock_iff _ := by decide
  hasBlock_eq h := absurd rfl h

theorem ok_initWithBlock : initWithBlock.Ok where
  mem_held_iff _ _ := Iff.rfl
  held_eq_nil h := by cases h
  hasBlock_iff _ := by decide
  hasBlock_eq h := absurd rfl h

/-- A container that is disposed of. -/
theorem Ok.of_closed (hclosed : n.object.isDisposed = true) (hheld : n.object.held = [])
    (hblock : n.hasBlock = false) : n.Ok where
  mem_held_iff hopen := absurd (hclosed.symm.trans hopen) (by decide)
  held_eq_nil _ := hheld
  hasBlock_iff hopen := absurd (hclosed.symm.trans hopen) (by decide)
  hasBlock_eq _ := hblock

/-- A container that is open. -/
theorem Ok.of_open (hopen : n.object.isDisposed = false)
    (hheld : ∀ d, d ∈ n.object.held ↔ d ∈ n.attached) (hkind : n.object.kind ≠ .disposable)
    (hblock : n.hasBlock = false) : n.Ok where
  mem_held_iff _ := hheld
  held_eq_nil hclosed := absurd (hopen.symm.trans hclosed) (by decide)
  hasBlock_iff _ := by
    refine iff_of_false (fun h => hkind ?_) (fun h => absurd (hblock.symm.trans h) (by decide))
    rw [h]
    rfl
  hasBlock_eq _ := hblock

theorem ok_serial : serial.Ok := .of_open rfl (fun _ => Iff.rfl) (by decide) rfl

theorem ok_compound (otherDisposables : List Ref) : (compound otherDisposables).Ok := by
  refine .of_open rfl (fun d => ?_) (fun h => by cases h) rfl
  show d ∈ (RACCompoundDisposable.initWithDisposables otherDisposables).contents ↔ _
  rw [RACCompoundDisposable.contents_initWithDisposables]
  rfl

theorem addDisposable_moves (hok : n.Ok) {d : Ref}
    (h : n.addDisposable d = some (n', disposed)) :
    n.object.kind ≠ .disposable ∧ Moves [d] false n n' disposed := by
  obtain ⟨object, attached, hasBlock⟩ := n
  cases object with
  | disposable p => cases h
  | serial sd => cases h
  | compound c =>
    refine ⟨fun h => (by cases h), ?_⟩
    have hblock : hasBlock = false := hok.hasBlock_eq (fun h => by cases h)
    cases hd : c.disposed with
    | true =>
      simp only [addDisposable, RACCompoundDisposable.addDisposable_of_disposed hd, if_true,
        Option.some.injEq, Prod.mk.injEq] at h
      obtain ⟨rfl, rfl⟩ := h
      have hnil : c.contents = [] := hok.held_eq_nil hd
      refine ⟨.of_closed hd hnil hblock, rfl, (Bool.or_false _).symm, rfl, .late hd hd rfl, ?_, ?_⟩
      · simp [Object.held, hnil]
      · simp [Object.held, hnil]
    | false =>
      obtain ⟨hshould, hopen, hperm⟩ := RACCompoundDisposable.addDisposable_spec hd d
      simp only [addDisposable, hshould, Bool.false_eq_true, if_false, Option.some.injEq,
        Prod.mk.injEq] at h
      obtain ⟨rfl, rfl⟩ := h
      have hheld : ∀ x, x ∈ c.contents ↔ x ∈ attached := hok.mem_held_iff hd
      refine ⟨.of_open hopen (fun x => ?_) (fun h => by cases h) hblock, rfl,
        hopen.trans (by rw [Bool.or_false]; exact hd.symm), rfl, .rewired hd hopen rfl, ?_,
        fun x hx => ?_⟩
      · show x ∈ (c.addDisposable d).1.contents ↔ x ∈ attached ++ [d]
        rw [hperm.mem_iff, List.mem_cons, List.mem_append, hheld, List.mem_singleton, or_comm]
      · show 0 + (c.addDisposable d).1.contents.length ≤ c.contents.length + 1
        rw [hperm.length_eq, List.length_cons, Nat.zero_add]
      · have hx : x ∈ (c.addDisposable d).1.contents := hx.resolve_left List.not_mem_nil
        rw [hperm.mem_iff, List.mem_cons] at hx
        exact hx.symm.imp_right List.mem_singleton.mpr

theorem removeDisposable_moves (hok : n.Ok) {d : Ref}
    (h : n.removeDisposable d = some (n', disposed)) :
    n.object.kind ≠ .disposable ∧ Moves [] false n n' disposed := by
  obtain ⟨object, attached, hasBlock⟩ := n
  cases object with
  | disposable p => cases h
  | serial sd => cases h
  | compound c =>
    obtain ⟨rfl, rfl⟩ := Prod.mk.inj (Option.some.inj h)
    refine ⟨fun h => (by cases h), ?_⟩
    have hblock : hasBlock = false := hok.hasBlock_eq (fun h => by cases h)
    cases hd : c.disposed with
    | true =>
      rw [RACCompoundDisposable.removeDisposable_of_disposed hd]
      have hnil : c.contents = [] := hok.held_eq_nil hd
      refine ⟨.of_closed hd hnil hblock, rfl, (Bool.or_false _).symm, rfl,
        .late hd hd (List.append_nil _).symm, ?_,
        fun x hx => Or.inl (hx.resolve_left List.not_mem_nil)⟩
      simp
    | false =>
      obtain ⟨hopen, hcontents⟩ := RACCompoundDisposable.removeDisposable_spec hd d
      have hheld : ∀ x, x ∈ c.contents ↔ x ∈ attached := hok.mem_held_iff hd
      refine ⟨.of_open hopen (fun x => ?_) (fun h => by cases h) hblock, rfl,
        hopen.trans (by rw [Bool.or_false]; exact hd.symm), rfl, .rewired hd hopen rfl, ?_,
        fun x hx => ?_⟩
      · show x ∈ (c.removeDisposable d).contents ↔ x ∈ attached.filter fun x => x != d
        rw [hcontents, List.mem_filter, List.mem_filter, hheld]
      · show 0 + (c.removeDisposable d).contents.length ≤ c.contents.length + 0
        rw [hcontents, Nat.zero_add, Nat.add_zero]
        exact List.length_filter_le _ _
      · have hx : x ∈ (c.removeDisposable d).contents := hx.resolve_left List.not_mem_nil
        rw [hcontents] at hx
        exact Or.inl (List.mem_filter.mp hx).1

theorem swapInDisposable_moves (hok : n.Ok) {d : Option Ref}
    (h : n.swapInDisposable d = some (n', disposed)) :
    n.object.kind ≠ .disposable ∧ Moves d.toList false n n' disposed := by
  obtain ⟨object, attached, hasBlock⟩ := n
  cases object with
  | disposable p => cases h
  | compound c => cases h
  | serial sd =>
    refine ⟨fun h => (by cases h), ?_⟩
    have hblock : hasBlock = false := hok.hasBlock_eq (fun h => by cases h)
    cases hd : sd.disposed with
    | true =>
      simp only [swapInDisposable, RACSerialDisposable.swapInDisposable, hd, if_true,
        Option.some.injEq, Prod.mk.injEq] at h
      obtain ⟨rfl, rfl⟩ := h
      have hnil : sd.disposable.toList = [] := hok.held_eq_nil hd
      refine ⟨.of_closed hd hnil hblock, rfl, (Bool.or_false _).symm, rfl, .late hd hd rfl, ?_, ?_⟩
      · simp [Object.held, hnil]
      · simp [Object.held, hnil]
    | false =>
      simp only [swapInDisposable, RACSerialDisposable.swapInDisposable, hd, Bool.false_eq_true,
        if_false, Option.some.injEq, Prod.mk.injEq] at h
      obtain ⟨rfl, rfl⟩ := h
      refine ⟨.of_open rfl (fun x => Iff.rfl) (fun h => by cases h) hblock, rfl,
        Eq.symm (by rw [Bool.or_false]; exact hd), rfl, .rewired hd rfl rfl, ?_,
        fun x hx => Or.inr (hx.resolve_left List.not_mem_nil)⟩
      show 0 + d.toList.length ≤ _
      omega

theorem dispose_moves (hok : n.Ok) (h : n.dispose = some (n', disposed)) :
    n.object.kind ≠ .disposable ∧ Moves [] true n n' disposed := by
  obtain ⟨object, attached, hasBlock⟩ := n
  cases object with
  | disposable p => cases h
  | serial sd =>
    refine ⟨fun h => (by cases h), ?_⟩
    have hblock : hasBlock = false := hok.hasBlock_eq (fun h => by cases h)
    cases hd : sd.disposed with
    | true =>
      simp only [dispose, RACSerialDisposable.dispose, hd, if_true, Option.some.injEq,
        Prod.mk.injEq] at h
      obtain ⟨rfl, rfl⟩ := h
      refine ⟨hok, rfl, hd.trans (Bool.or_true _).symm, rfl,
        .late hd hd (List.append_nil _).symm, ?_,
        fun x hx => Or.inl (hx.resolve_left List.not_mem_nil)⟩
      simp
    | false =>
      simp only [dispose, RACSerialDisposable.dispose, hd, Bool.false_eq_true, if_false,
        Option.some.injEq, Prod.mk.injEq] at h
      obtain ⟨rfl, rfl⟩ := h
      exact ⟨.of_closed rfl rfl hblock, rfl, (Bool.or_true _).symm, rfl,
        .closed hd rfl rfl rfl, Nat.le_refl _,
        fun x hx => Or.inl (hx.resolve_right List.not_mem_nil)⟩
  | compound c =>
    refine ⟨fun h => (by cases h), ?_⟩
    have hblock : hasBlock = false := hok.hasBlock_eq (fun h => by cases h)
    obtain ⟨rfl, rfl⟩ := Prod.mk.inj (Option.some.inj h)
    have hnil : c.dispose.1.contents = [] := RACCompoundDisposable.contents_dispose c
    refine ⟨.of_closed rfl hnil hblock, rfl, (Bool.or_true _).symm, rfl, ?_, ?_, fun x hx => ?_⟩
    · cases hd : c.disposed with
      | true =>
        have hnone : c.contents = [] := hok.held_eq_nil hd
        refine .late hd rfl ?_
        show attached = attached ++ c.contents
        rw [hnone, List.append_nil]
      | false => exact .closed hd rfl rfl rfl
    · show c.contents.length + c.dispose.1.contents.length ≤ c.contents.length + 0
      rw [hnil]
      exact Nat.le_refl _
    · refine Or.inl (hx.resolve_right fun hx => ?_)
      have hx : x ∈ c.dispose.1.contents := hx
      rw [hnil] at hx
      cases hx

/-- The pointer of a plain disposable is swapped for `NULL`. -/
theorem swap_moves (hok : n.Ok) {p : DisposeBlock} (hp : n.object = .disposable p) :
    Moves [] true n { n with object := .disposable .null } [] := by
  obtain ⟨object, attached, hasBlock⟩ := n
  obtain rfl : object = .disposable p := hp
  refine ⟨⟨fun h => (by cases h), fun _ => rfl, fun h => (by cases h), fun h => absurd rfl h⟩, rfl,
    (Bool.or_true _).symm, rfl, ?_, Nat.le_refl _, fun x hx => ?_⟩
  · by_cases hnull : p = .null
    · exact .late (decide_eq_true hnull) rfl (List.append_nil _).symm
    · exact .closed (decide_eq_false hnull) rfl rfl rfl
  · exact Or.inl (hx.resolve_left List.not_mem_nil)

end Node

end LANScan.ReactiveCocoa
