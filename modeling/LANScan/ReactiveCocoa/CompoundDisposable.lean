import Mathlib.Data.List.Induction
import Mathlib.Data.List.ReduceOption
import Mathlib.Data.Multiset.Filter

/-!
# Disposables that hold other disposables

A `RACCompoundDisposable` keeps its first two disposables in inline slots and the rest in
an array made when the slots are full; a slot that is freed is taken again before the
array grows.  A `RACSerialDisposable` has room for one.  Each method does its work on these
variables in one section under a spin lock, and disposes of others after it: the sections
are functions here, and what is disposed of afterwards is part of their result.

## Main definitions

* `RACCompoundDisposable`, `RACSerialDisposable` and their locked sections.
* `RACCompoundDisposable.contents` — what a compound disposable holds.
* `Bag` — a compound disposable without slots.

## Main results

* `compoundDisposable_refines_bag` — **slots and array together are a bag**, whatever
  is done to them.
-/

namespace LANScan.ReactiveCocoa

/-- A pointer to a disposable. -/
abbrev Ref := ℕ

/-! ### Objects in a list -/

section Objects

variable {β : Type} {l : List β} {i j : ℕ} {a b x : β}

/-- What is found after one object has been changed. -/
theorem getElem?_set_cases (h : (l.set i b)[j]? = some x) :
    j = i ∧ x = b ∨ j ≠ i ∧ l[j]? = some x := by
  rw [List.getElem?_set] at h
  split_ifs at h with hij hlt
  · exact Or.inl ⟨hij.symm, (Option.some.inj h).symm⟩
  · exact Or.inr ⟨fun hji => hij hji.symm, h⟩

theorem getElem?_set_self' (h : l[i]? = some a) : (l.set i b)[i]? = some b := by
  obtain ⟨hlt, -⟩ := List.getElem?_eq_some_iff.mp h
  rw [List.getElem?_set_self hlt]

/-- What is found after one object has been created. -/
theorem getElem?_append_cases (h : (l ++ [b])[j]? = some x) :
    l[j]? = some x ∨ j = l.length ∧ x = b := by
  rw [List.getElem?_append] at h
  split_ifs at h with hlt
  · exact Or.inl h
  · obtain ⟨hlt', heq⟩ := List.getElem?_eq_some_iff.mp h
    rw [List.length_singleton] at hlt'
    exact Or.inr ⟨by omega, by simpa using heq.symm⟩

end Objects

/-! ### Compound disposables -/

/-- How many slots there are. -/
def compoundDisposableInlineCount : ℕ := 2

/-- A compound disposable: its slots, the array if there is one, and whether it has been
disposed of. -/
structure RACCompoundDisposable where
  inlineDisposables : List (Option Ref)
  length_inlineDisposables : inlineDisposables.length = compoundDisposableInlineCount
  /-- The array for what does not fit. -/
  disposables : Option (List Ref)
  disposed : Bool
  deriving DecidableEq, Repr

/-- The loop over the slots in `addDisposable:`, which jumps out at the first free one. -/
def fillSlot (disposable : Ref) : List (Option Ref) → Option (List (Option Ref))
  | [] => none
  | none :: slots => some (some disposable :: slots)
  | some d :: slots => (fillSlot disposable slots).map (some d :: ·)

/-- The loop over the array in `removeDisposable:`, from the given index down. -/
def removeFrom (disposable : Ref) : ℕ → List Ref → List Ref
  | 0, l => l
  | i + 1, l => removeFrom disposable i (if l[i]? = some disposable then l.eraseIdx i else l)

theorem length_fillSlot {d : Ref} : ∀ {slots slots' : List (Option Ref)},
    fillSlot d slots = some slots' → slots'.length = slots.length
  | [], _, h => by cases h
  | none :: slots, _, h => by
    obtain rfl := Option.some.inj h
    rfl
  | some x :: slots, _, h => by
    obtain ⟨filled, hfilled, rfl⟩ := Option.map_eq_some_iff.mp h
    exact congrArg (· + 1) (length_fillSlot hfilled)

/-- A filled slot adds one disposable. -/
theorem perm_fillSlot {d : Ref} : ∀ {slots slots' : List (Option Ref)},
    fillSlot d slots = some slots' → slots'.reduceOption.Perm (d :: slots.reduceOption)
  | [], _, h => by cases h
  | none :: slots, _, h => by
    obtain rfl := Option.some.inj h
    exact .refl _
  | some x :: slots, _, h => by
    obtain ⟨filled, hfilled, rfl⟩ := Option.map_eq_some_iff.mp h
    rw [List.reduceOption_cons_of_some, List.reduceOption_cons_of_some]
    exact ((perm_fillSlot hfilled).cons x).trans (.swap d x _)

/-- The loop has seen `l₂`, and drops the disposable from what comes before it. -/
theorem removeFrom_append (d : Ref) : ∀ l l₂ : List Ref,
    removeFrom d l.length (l ++ l₂) = l.filter (fun x => x != d) ++ l₂ := by
  intro l
  induction l using List.reverseRecOn with
  | nil => exact fun l₂ => rfl
  | append_singleton l x ih =>
    intro l₂
    have hat : (l ++ [x] ++ l₂)[l.length]? = some x := by
      rw [List.append_assoc, List.getElem?_append_right (Nat.le_refl _), Nat.sub_self]
      rfl
    rw [List.length_append, List.length_singleton, removeFrom, hat, List.filter_append]
    by_cases hx : x = d
    · have herase : (l ++ [x] ++ l₂).eraseIdx l.length = l ++ l₂ := by
        rw [List.append_assoc, List.eraseIdx_append_of_length_le (Nat.le_refl _), Nat.sub_self]
        rfl
      rw [if_pos (congrArg some hx), herase, ih]
      simp [hx]
    · rw [if_neg (fun h => hx (Option.some.inj h)), List.append_assoc, ih]
      simp [hx]

/-- **The loop removes every occurrence.** -/
theorem removeFrom_length (d : Ref) (l : List Ref) :
    removeFrom d l.length l = l.filter fun x => x != d := by
  have h := removeFrom_append d l []
  rwa [List.append_nil, List.append_nil] at h

namespace RACCompoundDisposable

/-- `initWithDisposables:`. -/
def initWithDisposables (otherDisposables : List Ref) : RACCompoundDisposable where
  inlineDisposables :=
    (List.range compoundDisposableInlineCount).map fun index => otherDisposables[index]?
  length_inlineDisposables := by rw [List.length_map, List.length_range]
  disposables :=
    if otherDisposables.length > compoundDisposableInlineCount then
      some (otherDisposables.drop compoundDisposableInlineCount)
    else none
  disposed := false

/-- The locked section of `addDisposable:`, and `shouldDispose`.  The method has returned
before it for an argument that is nil or has been disposed of. -/
def addDisposable (c : RACCompoundDisposable) (disposable : Ref) : RACCompoundDisposable × Bool :=
  if c.disposed then (c, true)
  else
    match hfill : fillSlot disposable c.inlineDisposables with
    | some slots =>
      ({ c with
          inlineDisposables := slots
          length_inlineDisposables := (length_fillSlot hfill).trans c.length_inlineDisposables },
        false)
    | none => ({ c with disposables := some (c.disposables.getD [] ++ [disposable]) }, false)

/-- The locked section of `removeDisposable:`. -/
def removeDisposable (c : RACCompoundDisposable) (disposable : Ref) : RACCompoundDisposable :=
  if c.disposed then c
  else
    { c with
      inlineDisposables := c.inlineDisposables.map fun slot =>
        if slot = some disposable then none else slot
      length_inlineDisposables := by rw [List.length_map, c.length_inlineDisposables]
      disposables := c.disposables.map fun l => removeFrom disposable l.length l }

/-- The locked section of `dispose`, and what it disposes of after it. -/
def dispose (c : RACCompoundDisposable) : RACCompoundDisposable × List Ref :=
  ({ inlineDisposables := c.inlineDisposables.map fun _ => none
     length_inlineDisposables := by rw [List.length_map, c.length_inlineDisposables]
     disposables := none
     disposed := true },
    c.inlineDisposables.reduceOption ++ c.disposables.getD [])

/-- What a compound disposable holds. -/
def contents (c : RACCompoundDisposable) : List Ref :=
  c.inlineDisposables.reduceOption ++ c.disposables.getD []

theorem contents_initWithDisposables (l : List Ref) : (initWithDisposables l).contents = l := by
  match l with
  | [] => rfl
  | [_] => rfl
  | [_, _] => rfl
  | _ :: _ :: _ :: _ => rfl

@[simp] theorem contents_dispose (c : RACCompoundDisposable) : c.dispose.1.contents = [] := by
  have hnone : ∀ slots : List (Option Ref),
      (slots.map fun _ => (none : Option Ref)).reduceOption = [] := by
    intro slots
    induction slots with
    | nil => rfl
    | cons slot slots ih => exact ih
  exact congrArg (· ++ []) (hnone c.inlineDisposables)

theorem addDisposable_of_disposed {c : RACCompoundDisposable} (h : c.disposed = true) (d : Ref) :
    c.addDisposable d = (c, true) := if_pos h

/-- **An open compound disposable gets one disposable more**, in a slot or in the array. -/
theorem addDisposable_spec {c : RACCompoundDisposable} (h : c.disposed = false) (d : Ref) :
    (c.addDisposable d).2 = false ∧ (c.addDisposable d).1.disposed = false ∧
      (c.addDisposable d).1.contents.Perm (d :: c.contents) := by
  rw [addDisposable, if_neg (by rw [h]; exact Bool.false_ne_true)]
  split
  next slots hfill =>
    exact ⟨rfl, h, (perm_fillSlot hfill).append_right _⟩
  next hfull =>
    refine ⟨rfl, h, ?_⟩
    show (c.inlineDisposables.reduceOption ++ (c.disposables.getD [] ++ [d])).Perm _
    rw [← List.append_assoc]
    exact List.perm_append_singleton d _

theorem removeDisposable_of_disposed {c : RACCompoundDisposable} (h : c.disposed = true)
    (d : Ref) : c.removeDisposable d = c := if_pos h

/-- **An open compound disposable loses every occurrence.** -/
theorem removeDisposable_spec {c : RACCompoundDisposable} (h : c.disposed = false) (d : Ref) :
    (c.removeDisposable d).disposed = false ∧
      (c.removeDisposable d).contents = c.contents.filter fun x => x != d := by
  have hslots : ∀ slots : List (Option Ref),
      (slots.map fun slot => if slot = some d then none else slot).reduceOption =
        slots.reduceOption.filter fun x => x != d := by
    intro slots
    induction slots with
    | nil => rfl
    | cons slot slots ih =>
      cases slot with
      | none => exact ih
      | some x =>
        rw [List.map_cons, List.reduceOption_cons_of_some]
        by_cases hx : x = d
        · rw [if_pos (congrArg some hx), List.reduceOption_cons_of_none, ih]
          simp [hx]
        · rw [if_neg (fun heq => hx (Option.some.inj heq)), List.reduceOption_cons_of_some, ih]
          simp [hx]
  have harray : (c.disposables.map fun l => removeFrom d l.length l).getD [] =
      (c.disposables.getD []).filter fun x => x != d := by
    cases c.disposables with
    | none => rfl
    | some l => exact removeFrom_length d l
  rw [removeDisposable, if_neg (by rw [h]; exact Bool.false_ne_true)]
  refine ⟨h, ?_⟩
  rw [contents, contents, List.filter_append, ← hslots, ← harray]

theorem disposed_addDisposable (c : RACCompoundDisposable) (d : Ref) :
    (c.addDisposable d).1.disposed = c.disposed := by
  cases hd : c.disposed with
  | true => rw [addDisposable_of_disposed hd, hd]
  | false => exact (addDisposable_spec hd d).2.1

theorem disposed_removeDisposable (c : RACCompoundDisposable) (d : Ref) :
    (c.removeDisposable d).disposed = c.disposed := by
  cases hd : c.disposed with
  | true => rw [removeDisposable_of_disposed hd, hd]
  | false => exact (removeDisposable_spec hd d).1

end RACCompoundDisposable

/-! ### Slots and array as a bag -/

/-- A compound disposable without slots. -/
structure Bag where
  contents : Multiset Ref
  disposed : Bool

/-- What is done to a compound disposable, or to one that it may hold. -/
inductive CompoundOp
  | addDisposable (disposable : Option Ref)
  | removeDisposable (disposable : Option Ref)
  | dispose
  /-- Somebody disposes of another disposable. -/
  | disposeOf (disposable : Ref)
  deriving DecidableEq, Repr

/-- An operation on a compound disposable when the given others have been disposed of
already, and what it disposes of. -/
def RACCompoundDisposable.perform (c : RACCompoundDisposable) (gone : Multiset Ref) :
    CompoundOp → RACCompoundDisposable × List Ref
  | .addDisposable none => (c, [])
  | .addDisposable (some d) =>
    if d ∈ gone then (c, [])
    else
      let (c, shouldDispose) := c.addDisposable d
      (c, if shouldDispose then [d] else [])
  | .removeDisposable none => (c, [])
  | .removeDisposable (some d) => (c.removeDisposable d, [])
  | .dispose => c.dispose
  | .disposeOf d => (c, [d])

/-- The same operation on a bag. -/
def Bag.perform (b : Bag) (gone : Multiset Ref) : CompoundOp → Bag × Multiset Ref
  | .addDisposable none => (b, 0)
  | .addDisposable (some d) =>
    if d ∈ gone then (b, 0)
    else if b.disposed then (b, {d})
    else ({ b with contents := d ::ₘ b.contents }, 0)
  | .removeDisposable none => (b, 0)
  | .removeDisposable (some d) => ({ b with contents := b.contents.filter fun x => x ≠ d }, 0)
  | .dispose => (⟨0, true⟩, b.contents)
  | .disposeOf d => (b, {d})

/-- The operations one after the other, and what each of them disposes of.  What has been
disposed of stays so. -/
def performAll {σ δ : Type} (perform : σ → Multiset Ref → CompoundOp → σ × δ)
    (all : δ → Multiset Ref) : σ → Multiset Ref → List CompoundOp → σ × List δ
  | s, _, [] => (s, [])
  | s, gone, op :: ops =>
    let (s, disposed) := perform s gone op
    let (s, rest) := performAll perform all s (gone + all disposed) ops
    (s, disposed :: rest)

/-- The bag of a compound disposable. -/
def RACCompoundDisposable.bag (c : RACCompoundDisposable) : Bag := ⟨c.contents, c.disposed⟩

/-- An addition that gets past the check.  A disposed compound disposable stays empty. -/
theorem add_refines_bag {c : RACCompoundDisposable} (hc : c.disposed = true → c.contents = [])
    {gone : Multiset Ref} {d : Ref} (hd : d ∉ gone) :
    ((c.perform gone (.addDisposable (some d))).1.bag,
        ((c.perform gone (.addDisposable (some d))).2 : Multiset Ref)) =
      c.bag.perform gone (.addDisposable (some d)) ∧
      ((c.perform gone (.addDisposable (some d))).1.disposed = true →
        (c.perform gone (.addDisposable (some d))).1.contents = []) := by
  rw [RACCompoundDisposable.perform, Bag.perform, if_neg hd, if_neg hd]
  cases hopen : c.disposed with
  | true =>
    simp only [RACCompoundDisposable.addDisposable_of_disposed hopen, RACCompoundDisposable.bag,
      hopen, if_true]
    exact ⟨rfl, fun _ => hc hopen⟩
  | false =>
    obtain ⟨hshould, hstill, hperm⟩ := RACCompoundDisposable.addDisposable_spec hopen d
    simp only [RACCompoundDisposable.bag, hopen, hshould, hstill, Bool.false_eq_true, if_false]
    refine ⟨?_, fun h => h.elim⟩
    rw [Multiset.coe_eq_coe.mpr hperm]
    rfl

/-- A removal takes every occurrence out of the bag. -/
theorem remove_refines_bag {c : RACCompoundDisposable}
    (hc : c.disposed = true → c.contents = []) (d : Ref) :
    (c.removeDisposable d).bag =
        { c.bag with contents := c.bag.contents.filter fun x => x ≠ d } ∧
      ((c.removeDisposable d).disposed = true → (c.removeDisposable d).contents = []) := by
  cases hopen : c.disposed with
  | true =>
    rw [RACCompoundDisposable.removeDisposable_of_disposed hopen]
    refine ⟨?_, hc⟩
    simp only [RACCompoundDisposable.bag, hc hopen]
    rfl
  | false =>
    obtain ⟨hstill, hcontents⟩ := RACCompoundDisposable.removeDisposable_spec hopen d
    refine ⟨?_, fun h => absurd (hstill.symm.trans h) (by decide)⟩
    have hsame : (fun x => x != d) = fun x => decide (x ≠ d) := by
      funext x
      by_cases hx : x = d
      · simp [hx]
      · simp [hx]
    simp only [RACCompoundDisposable.bag, hstill, hopen, hcontents, Multiset.filter_coe, hsame]

/-- **One operation.**  A disposed compound disposable is empty, and stays so. -/
theorem perform_refines_bag {c : RACCompoundDisposable} (hc : c.disposed = true → c.contents = [])
    (gone : Multiset Ref) (op : CompoundOp) :
    ((c.perform gone op).1.bag, ((c.perform gone op).2 : Multiset Ref)) =
        c.bag.perform gone op ∧
      ((c.perform gone op).1.disposed = true → (c.perform gone op).1.contents = []) := by
  cases op with
  | addDisposable disposable =>
    cases disposable with
    | none => exact ⟨rfl, hc⟩
    | some d =>
      by_cases hd : d ∈ gone
      · rw [RACCompoundDisposable.perform, Bag.perform, if_pos hd, if_pos hd]
        exact ⟨rfl, hc⟩
      · exact add_refines_bag hc hd
  | removeDisposable disposable =>
    cases disposable with
    | none => exact ⟨rfl, hc⟩
    | some d =>
      obtain ⟨hbag, hempty⟩ := remove_refines_bag hc d
      exact ⟨Prod.ext hbag rfl, hempty⟩
  | dispose =>
    refine ⟨?_, fun _ => RACCompoundDisposable.contents_dispose c⟩
    show (Bag.mk ↑c.dispose.1.contents true, (↑c.contents : Multiset Ref)) = _
    rw [RACCompoundDisposable.contents_dispose]
    rfl
  | disposeOf d => exact ⟨rfl, hc⟩

/-- **Slots and array together are a bag**: whatever is done to a compound disposable, and
whichever others have been disposed of, each operation disposes of the same disposables as it
would with one bag, and the same are left in it. -/
theorem compoundDisposable_refines_bag (otherDisposables : List Ref) (gone : Multiset Ref)
    (ops : List CompoundOp) :
    let c := performAll RACCompoundDisposable.perform (fun l => (l : Multiset Ref))
      (.initWithDisposables otherDisposables) gone ops
    let b := performAll Bag.perform id ⟨otherDisposables, false⟩ gone ops
    c.1.bag = b.1 ∧ c.2.map (fun l => (l : Multiset Ref)) = b.2 := by
  have key : ∀ (ops : List CompoundOp) (c : RACCompoundDisposable) (gone : Multiset Ref),
      (c.disposed = true → c.contents = []) →
      (performAll RACCompoundDisposable.perform (fun l => (l : Multiset Ref)) c gone ops).1.bag =
          (performAll Bag.perform id c.bag gone ops).1 ∧
        (performAll RACCompoundDisposable.perform (fun l => (l : Multiset Ref)) c gone ops).2.map
            (fun l => (l : Multiset Ref)) =
          (performAll Bag.perform id c.bag gone ops).2 := by
    intro ops
    induction ops with
    | nil => exact fun c _ _ => ⟨rfl, rfl⟩
    | cons op ops ih =>
      intro c gone hc
      obtain ⟨hop, hnext⟩ := perform_refines_bag hc gone op
      obtain ⟨hbag, hdisposed⟩ := ih _ (gone + ((c.perform gone op).2 : Multiset Ref)) hnext
      simp only [performAll, ← hop, id_eq]
      exact ⟨hbag, congrArg _ hdisposed⟩
  have hinit : (RACCompoundDisposable.initWithDisposables otherDisposables).bag =
      ⟨otherDisposables, false⟩ := by
    rw [RACCompoundDisposable.bag, RACCompoundDisposable.contents_initWithDisposables]
    rfl
  have hrun := key ops (.initWithDisposables otherDisposables) gone (fun h => by cases h)
  rwa [hinit] at hrun

/-- What has been disposed of is not added again. -/
example : (performAll RACCompoundDisposable.perform (fun l => (l : Multiset Ref))
    (.initWithDisposables [7]) 0 [.dispose, .addDisposable (some 7)]).2 = [[7], []] := by
  decide

/-! ### Serial disposables -/

/-- A serial disposable: what it holds, and whether it has been disposed of. -/
structure RACSerialDisposable where
  disposable : Option Ref
  disposed : Bool
  deriving DecidableEq, Repr

namespace RACSerialDisposable

/-- `init`. -/
def new : RACSerialDisposable := ⟨none, false⟩

/-- The locked section of `swapInDisposable:`, and what it disposes of after it; the
disposable that was there before is handed back to the caller. -/
def swapInDisposable (s : RACSerialDisposable) (newDisposable : Option Ref) :
    RACSerialDisposable × List Ref :=
  if s.disposed then (s, newDisposable.toList)
  else ({ s with disposable := newDisposable }, [])

/-- The locked section of `dispose`, and what it disposes of after it. -/
def dispose (s : RACSerialDisposable) : RACSerialDisposable × List Ref :=
  if s.disposed then (s, []) else (⟨none, true⟩, s.disposable.toList)

end RACSerialDisposable

end LANScan.ReactiveCocoa
