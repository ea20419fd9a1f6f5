import LANScan.ReactiveCocoa.DisposalSteps
import Mathlib.Algebra.GroupWithZero.Nat
import Mathlib.Algebra.Order.BigOperators.Group.List
import Mathlib.Algebra.Order.Group.Nat

/-!
# Runs of disposables

Disposables that hold each other are a cascade, so once no call is under way what has been
disposed of is known; and every step of a call takes from a weight that only new calls add
to, so that comes to pass.

## Main definitions

* `Disposables.cascade` — the disposables as nodes that hold each other.
* `Disposables.weight` — what bounds the number of steps that are left.

## Main results

* `disposal_reaches_exactly_the_attached` — **when no call is under way, what is attached
  to something disposed of is disposed of, and nothing else is.**
* `disposal_terminates` — **calls come to an end, also where disposables hold each other in
  a circle.**
-/

namespace LANScan.ReactiveCocoa

variable {s s' : Disposables} {t : Task} {e : DisposalEvent}

/-! ### The cascade -/

namespace Disposables

/-- Something has been attached to a disposable, and not taken back while it was open. -/
def Attached (s : Disposables) (a b : Ref) : Prop := ∃ n, s.nodes[a]? = some n ∧ b ∈ n.attached

/-- The disposables as nodes that hold each other. -/
def cascade (s : Disposables) : Cascade Ref where
  closed := {r | ∃ n, s.nodes[r]? = some n ∧ n.object.isDisposed = true}
  pending := {r | ∃ t ∈ s.tasks, t.Disposes r}
  asked := {r | r ∈ s.asked}
  holds := s.Attached

end Disposables

/-- A step that only replaces calls follows the rules if the same disposals are left. -/
theorem follows_of_nodes_eq (hnodes : s'.nodes = s.nodes) (hasked : s'.asked = s.asked)
    (hpending : ∀ r, (∃ t ∈ s'.tasks, t.Disposes r) ↔ ∃ t ∈ s.tasks, t.Disposes r) :
    s.cascade.Follows s'.cascade := by
  have hattached : s'.Attached = s.Attached := by
    funext a b
    rw [Disposables.Attached, Disposables.Attached, hnodes]
  have heq : s'.cascade = s.cascade := by
    simp only [Disposables.cascade, hattached, hnodes, hasked, hpending]
  rw [heq]
  exact .refl _

/-- **A locked section follows the rules.** -/
theorem follows_moved {r : Ref} {n n' : Node} {disposes : Bool} {disposed : List Ref}
    {blocks : List Task} (hn : s.nodes[r]? = some n) (hok : n.Ok)
    (hmoves : n.Moves t.given disposes n' disposed)
    (hdisposes : ∀ d, t.Disposes d ↔ disposes = true ∧ d = r)
    (hblocks : ∀ u ∈ blocks, ∀ d, ¬u.Disposes d) :
    ({ s with tasks := t :: s.tasks } : Disposables).cascade.Follows
      ({ s with
        nodes := s.nodes.set r n'
        tasks := s.tasks ++ disposeEach disposed ++ blocks } : Disposables).cascade := by
  have hn' : (s.nodes.set r n')[r]? = some n' := getElem?_set_self' hn
  have hother : ∀ {a m}, a ≠ r → s.nodes[a]? = some m → (s.nodes.set r n')[a]? = some m :=
    fun har hm => (List.getElem?_set_ne (fun hra => har hra.symm)).trans hm
  have hpending : ∀ d ∈ disposed,
      ∃ u ∈ s.tasks ++ disposeEach disposed ++ blocks, u.Disposes d := fun d hd =>
    ⟨.begin (.dispose d), List.mem_append_left _ (List.mem_append_right _
      (List.mem_map.mpr ⟨d, hd, rfl⟩)), rfl⟩
  refine ⟨?_, ?_, fun a ha => ha, fun a ha => Or.inl ha, ?_, ?_, ?_, ?_⟩
  · rintro a ⟨m, hm, hclosed⟩
    by_cases har : a = r
    · subst har
      obtain rfl := Option.some.inj (hn.symm.trans hm)
      exact ⟨n', hn', by rw [hmoves.isDisposed_eq, hclosed]; rfl⟩
    · exact ⟨m, hother har hm, hclosed⟩
  · rintro a ⟨m, hm, hclosed⟩
    rcases getElem?_set_cases hm with ⟨rfl, rfl⟩ | ⟨-, hm⟩
    · rw [hmoves.isDisposed_eq, Bool.or_eq_true] at hclosed
      rcases hclosed with hclosed | hd
      · exact Or.inl ⟨n, hn, hclosed⟩
      · exact Or.inr ⟨t, List.mem_cons_self, (hdisposes a).mpr ⟨hd, rfl⟩⟩
    · exact Or.inl ⟨m, hm, hclosed⟩
  · rintro a ⟨u, hu, hdisposesu⟩
    rcases List.mem_cons.mp hu with rfl | hu
    · obtain ⟨hd, rfl⟩ := (hdisposes a).mp hdisposesu
      exact Or.inr ⟨n', hn', by rw [hmoves.isDisposed_eq, hd, Bool.or_true]⟩
    · exact Or.inl ⟨u, List.mem_append_left _ (List.mem_append_left _ hu), hdisposesu⟩
  · rintro b ⟨u, hu, hdisposesu⟩
    rcases List.mem_append.mp hu with hu | hu
    · rcases List.mem_append.mp hu with hu | hu
      · exact Or.inl ⟨u, List.mem_cons_of_mem t hu, hdisposesu⟩
      · obtain ⟨d, hd, rfl⟩ := List.mem_map.mp hu
        obtain rfl : d = b := hdisposesu
        -- what is disposed of is attached to a disposable that is
        refine Or.inr (Or.inr ⟨r, ?_⟩)
        cases hmoves.moved with
        | rewired _ _ hnil =>
          rw [hnil] at hd
          cases hd
        | closed hopen hclosed' hattached hheld =>
          rw [hheld] at hd
          refine ⟨⟨n', hn', hclosed'⟩, n', hn', ?_⟩
          rw [hattached]
          exact (hok.mem_held_iff hopen d).mp hd
        | late _ hclosed' hattached =>
          refine ⟨⟨n', hn', hclosed'⟩, n', hn', ?_⟩
          rw [hattached]
          exact List.mem_append_right _ hd
    · exact absurd hdisposesu (hblocks u hu b)
  · rintro a ⟨m, hm, hclosed⟩ b ⟨m', hm', hb⟩
    obtain rfl := Option.some.inj (hm.symm.trans hm')
    by_cases har : a = r
    · subst har
      obtain rfl := Option.some.inj (hn.symm.trans hm)
      cases hmoves.moved with
      | rewired hopen => exact absurd (hopen.symm.trans hclosed) (by decide)
      | closed hopen => exact absurd (hopen.symm.trans hclosed) (by decide)
      | late _ _ hattached =>
        refine ⟨n', hn', ?_⟩
        rw [hattached]
        exact List.mem_append_left _ hb
    · exact ⟨m, hother har hm, hb⟩
  · rintro a ⟨m, hm, hclosed⟩ b ⟨m', hm', hb⟩
    obtain rfl := Option.some.inj (hm.symm.trans hm')
    rcases getElem?_set_cases hm with ⟨rfl, rfl⟩ | ⟨-, hm⟩
    · cases hmoves.moved with
      | rewired _ hopen' => exact absurd (hopen'.symm.trans hclosed) (by decide)
      | closed hopen _ hattached hheld =>
        rw [hattached, ← hok.mem_held_iff hopen, ← hheld] at hb
        exact Or.inr (Or.inr (hpending b hb))
      | late hwas _ hattached =>
        rw [hattached] at hb
        rcases List.mem_append.mp hb with hb | hb
        · exact Or.inl ⟨⟨n, hn, hwas⟩, n, hn, hb⟩
        · exact Or.inr (Or.inr (hpending b hb))
    · exact Or.inl ⟨⟨m, hm, hclosed⟩, m, hm, hb⟩

/-- **A step of a call follows the rules.** -/
theorem follows_performs (h : Consistent { s with tasks := t :: s.tasks })
    (hp : Performs s t s') :
    ({ s with tasks := t :: s.tasks } : Disposables).cascade.Follows s'.cascade := by
  cases hp with
  | read hn hobject =>
    refine follows_of_nodes_eq rfl rfl fun r => ?_
    simp [Task.Disposes, or_comm]
  | retry hn hobject hne =>
    refine follows_of_nodes_eq rfl rfl fun r => ?_
    simp [Task.Disposes, or_comm]
  | skip =>
    refine follows_of_nodes_eq rfl rfl fun r => ?_
    simp [Task.Disposes]
  | check =>
    refine follows_of_nodes_eq rfl rfl fun r => ?_
    simp [Task.Disposes]
  | run =>
    refine follows_of_nodes_eq rfl rfl fun r => ?_
    simp [Task.Disposes]
  | moved hn hmoves hdisposes hplain hblocks hrun hweight =>
    refine follows_moved hn (h.ok _ _ hn) hmoves hdisposes fun u hu d hd => ?_
    rw [hblocks] at hu
    split_ifs at hu
    · obtain rfl := List.mem_singleton.mp hu
      cases hd
    · cases hu

/-- A new disposable is open. -/
theorem follows_create {n : Node} (hopen : n.object.isDisposed = false) :
    s.cascade.Follows (s.create n).cascade := by
  have hkept : ∀ {a m}, s.nodes[a]? = some m → (s.nodes ++ [n])[a]? = some m := fun hm =>
    (List.getElem?_append_left (List.getElem?_eq_some_iff.mp hm).1).trans hm
  have hclosed : ∀ a, a ∈ (s.create n).cascade.closed → a ∈ s.cascade.closed := by
    rintro a ⟨m, hm, hclosed⟩
    rcases getElem?_append_cases hm with hm | ⟨-, rfl⟩
    · exact ⟨m, hm, hclosed⟩
    · exact absurd (hopen.symm.trans hclosed) (by decide)
  refine ⟨?_, fun a ha => Or.inl (hclosed a ha), fun a ha => ha, fun a ha => Or.inl ha,
    fun a ha => Or.inl ha, fun b hb => Or.inl hb, ?_, ?_⟩
  · rintro a ⟨m, hm, hclosed⟩
    exact ⟨m, hkept hm, hclosed⟩
  · rintro a - b ⟨m, hm, hb⟩
    exact ⟨m, hkept hm, hb⟩
  · rintro a ha b ⟨m, hm, hb⟩
    obtain ⟨m', hm', -⟩ := hclosed a ha
    obtain rfl := Option.some.inj ((hkept hm').symm.trans hm)
    exact Or.inl ⟨hclosed a ha, m', hm', hb⟩

/-- **Every step follows the rules of a cascade.** -/
theorem follows_next (h : Consistent s) (hs : s.next e = some s') :
    s.cascade.Follows s'.cascade := by
  cases e with
  | init =>
    obtain rfl := Option.some.inj hs
    exact follows_create rfl
  | initWithBlock =>
    obtain rfl := Option.some.inj hs
    exact follows_create rfl
  | serial =>
    obtain rfl := Option.some.inj hs
    exact follows_create rfl
  | compound l =>
    obtain rfl := Option.some.inj hs
    exact follows_create rfl
  | call call =>
    obtain rfl := Option.some.inj hs
    have hpending : ∀ b, (∃ t ∈ s.tasks ++ [.begin call], t.Disposes b) →
        (∃ t ∈ s.tasks, t.Disposes b) ∨ call = .dispose b := by
      rintro b ⟨t, ht, hb⟩
      rcases List.mem_append.mp ht with ht | ht
      · exact Or.inl ⟨t, ht, hb⟩
      · obtain rfl := List.mem_singleton.mp ht
        cases call with
        | dispose d => exact Or.inr (congrArg _ hb)
        | _ => cases hb
    refine ⟨fun a ha => ha, fun a ha => Or.inl ha, ?_, ?_, ?_, ?_, fun a _ b hb => hb,
      fun a ha b hb => Or.inl ⟨ha, hb⟩⟩
    · intro a ha
      cases call with
      | dispose d => exact List.mem_append_left _ ha
      | _ => exact ha
    · intro a ha
      cases call with
      | dispose d =>
        rcases List.mem_append.mp ha with ha | ha
        · exact Or.inl ha
        · obtain rfl := List.mem_singleton.mp ha
          exact Or.inr ⟨_, List.mem_append_right _ (List.mem_singleton_self _), rfl⟩
      | _ => exact Or.inl ha
    · rintro a ⟨t, ht, ha⟩
      exact Or.inl ⟨t, List.mem_append_left _ ht, ha⟩
    · intro b hb
      rcases hpending b hb with hb | rfl
      · exact Or.inl hb
      · exact Or.inr (Or.inl (List.mem_append_right _ (List.mem_singleton_self b)))
  | step i =>
    obtain ⟨t, hperm, hperform⟩ := next_step_cases hs
    have hfollows := follows_performs (s := { s with tasks := s.tasks.eraseIdx i }) (h.perm hperm)
      (performs_of_perform h.ok hperform)
    have heq : ({ s with tasks := t :: s.tasks.eraseIdx i } : Disposables).cascade =
        s.cascade := by
      simp only [Disposables.cascade, ← hperm.mem_iff]
      rfl
    rwa [heq] at hfollows

/-- Disposables that hold each other are a cascade. -/
theorem cascade_of_reachable (h : disposables.Reachable s) : s.cascade.Inv := by
  refine Cascade.inv_of_reachable Disposables.cascade ?_
    (fun s e s' hs hms => follows_next (consistent_of_reachable hs) hms.2) h
  refine ⟨fun a ha => (by cases ha), ?_, ?_⟩
  · rintro a ⟨n, hn, -⟩
    cases hn
  · rintro b (⟨n, hn, -⟩ | ⟨t, ht, -⟩)
    · cases hn
    · cases ht

/-- **When no call is under way, what is attached to something disposed of is disposed of,
and nothing else is**: exactly the disposables are that somebody has disposed of, or that
can be reached from one of those by what has been attached to what. -/
theorem disposal_reaches_exactly_the_attached (h : disposables.Reachable s)
    (hquiet : s.tasks = []) (d : Ref) :
    (∃ n, s.nodes[d]? = some n ∧ n.object.isDisposed = true) ↔
      ∃ r ∈ s.asked, Relation.ReflTransGen s.Attached r d := by
  refine (cascade_of_reachable h).closed_iff ?_ d
  rintro a ⟨t, ht, -⟩
  rw [hquiet] at ht
  cases ht

theorem disposal_reaches_exactly_the_attached_circle : ∃ s, disposables.Reachable s ∧
    s.asked = [1] ∧ ∀ d : Ref, (∃ n, s.nodes[d]? = some n ∧ n.object.isDisposed = true) ↔
      ∃ r ∈ s.asked, Relation.ReflTransGen s.Attached r d :=
  ⟨_, reachable_of_events circleDisposed rfl, rfl,
    disposal_reaches_exactly_the_attached (reachable_of_events circleDisposed rfl) rfl⟩

/-! ### The end of all calls -/

/-- The steps the calls under way have left at most, with those of the calls that disposing
of what is held would take. -/
def Disposables.weight (s : Disposables) : ℕ :=
  (s.tasks.map (Task.weight s.nodes)).sum + (s.nodes.map fun n => 5 * n.object.held.length).sum

/-- The sum over a list with one entry changed. -/
theorem sum_map_set {α : Type} (f : α → ℕ) (b : α) : ∀ {l : List α} {i : ℕ} {a : α},
    l[i]? = some a → ((l.set i b).map f).sum + f a = (l.map f).sum + f b
  | [], _, _, h => by cases h
  | x :: l, 0, a, h => by
    obtain rfl := Option.some.inj h
    simp only [List.set_cons_zero, List.map_cons, List.sum_cons]
    omega
  | x :: l, i + 1, a, h => by
    have ih := sum_map_set f b (show l[i]? = some a from h)
    simp only [List.set_cons_succ, List.map_cons, List.sum_cons]
    omega

theorem weight_dispose_le (nodes : List Node) (d : Ref) :
    (Task.begin (.dispose d)).weight nodes ≤ 5 := by
  rw [Task.weight]
  split <;> omega

theorem sum_disposeEach_le (nodes : List Node) (ds : List Ref) :
    ((disposeEach ds).map (Task.weight nodes)).sum ≤ 5 * ds.length := by
  induction ds with
  | nil => exact Nat.le_refl _
  | cons d ds ih =>
    have hd := weight_dispose_le nodes d
    rw [disposeEach, List.map_cons, List.map_cons, List.sum_cons, List.length_cons]
    rw [disposeEach] at ih
    omega

/-- What a locked section leaves of a disposable: a plain one is disposed of. -/
theorem object_eq_null {n n' : Node} {given disposed : List Ref} {disposes : Bool}
    (hmoves : n.Moves given disposes n' disposed)
    (hplain : n.object.kind = .disposable → disposes = true)
    (hkind : n.object.kind = .disposable) : n'.object = .disposable .null := by
  have hclosed := hmoves.isDisposed_eq
  have hkind' := hmoves.kind_eq.trans hkind
  rw [hplain hkind, Bool.or_true] at hclosed
  cases hobject : n'.object with
  | disposable p =>
    rw [hobject] at hclosed
    rw [of_decide_eq_true hclosed]
  | serial sd =>
    rw [hobject] at hkind'
    cases hkind'
  | compound c =>
    rw [hobject] at hkind'
    cases hkind'

/-- A locked section makes no other call longer. -/
theorem weight_set_le {nodes : List Node} {r : Ref} {n n' : Node} {given disposed : List Ref}
    {disposes : Bool} (hn : nodes[r]? = some n) (hmoves : n.Moves given disposes n' disposed)
    (hplain : n.object.kind = .disposable → disposes = true) (u : Task) :
    u.weight (nodes.set r n') ≤ u.weight nodes := by
  have hobject : ∀ d : Ref, (nodes.set r n')[d]?.map Node.object = nodes[d]?.map Node.object ∨
      (nodes.set r n')[d]?.map Node.object = some (.disposable .null) ∨
      (∀ p, nodes[d]?.map Node.object ≠ some (.disposable p)) ∧
        ∀ p, (nodes.set r n')[d]?.map Node.object ≠ some (.disposable p) := by
    intro d
    by_cases hdr : d = r
    · subst hdr
      rw [getElem?_set_self' hn, hn, Option.map_some, Option.map_some]
      by_cases hkind : n.object.kind = .disposable
      · exact Or.inr (Or.inl (congrArg some (object_eq_null hmoves hplain hkind)))
      · refine Or.inr (Or.inr ⟨fun p hp => hkind ?_, fun p hp => hkind ?_⟩)
        · rw [Option.some.inj hp]
          rfl
        · rw [← hmoves.kind_eq, Option.some.inj hp]
          rfl
    · rw [List.getElem?_set_ne (fun hrd => hdr hrd.symm)]
      exact Or.inl rfl
  cases u with
  | begin call =>
    cases call with
    | dispose d =>
      rcases hobject d with heq | heq | ⟨hne, hne'⟩
      · rw [Task.weight, Task.weight, heq]
      · rw [Task.weight, Task.weight, if_pos heq]
        split <;> omega
      · rw [Task.weight, Task.weight, if_neg (hne _), if_neg (hne' _)]
    | _ => exact Nat.le_refl _
  | compareAndSwap d p =>
    rcases hobject d with heq | heq | ⟨hne, hne'⟩
    · rw [Task.weight, Task.weight, heq]
    · rw [Task.weight, Task.weight, if_pos heq]
      split_ifs <;> omega
    · rw [Task.weight, Task.weight, if_neg (hne _), if_neg (hne' _), if_neg (hne _),
        if_neg (hne' _)]
  | runBlock d => exact Nat.le_refl _
  | lock c d => exact Nat.le_refl _

/-- One call more. -/
theorem weight_append (s : Disposables) (u : Task) :
    ({ s with tasks := s.tasks ++ [u] } : Disposables).weight = u.weight s.nodes + s.weight := by
  show ((s.tasks ++ [u]).map (Task.weight s.nodes)).sum + _ = _ + (_ + _)
  rw [List.map_append, List.sum_append, List.map_singleton, List.sum_singleton,
    Nat.add_comm (s.tasks.map _).sum, Nat.add_assoc]

/-- **A step of a call takes weight away.** -/
theorem weight_performs (hp : Performs s t s') :
    s'.weight < t.weight s.nodes + s.weight := by
  cases hp with
  | @read d n p hn hobject =>
    rw [weight_append]
    apply Nat.add_lt_add_right
    rw [Task.weight, Task.weight, hn, Option.map_some, hobject]
    cases p <;> decide
  | @retry d n p q hn hobject hne =>
    rw [weight_append]
    apply Nat.add_lt_add_right
    rw [Task.weight, Task.weight, hn, Option.map_some, hobject]
    cases p <;> cases q <;> first | exact absurd rfl hne | decide
  | skip => exact Nat.lt_add_of_pos_left (Nat.succ_pos 6)
  | check =>
    rw [weight_append]
    exact Nat.add_lt_add_right (Nat.lt_succ_self 6) _
  | run => exact Nat.lt_add_of_pos_left Nat.zero_lt_one
  | @moved _ r n n' disposes disposed blocks hn hmoves hdisposes hplain hblocks hrun hweight =>
    have hless := weight_set_le hn hmoves hplain
    have htasks : (s.tasks.map (Task.weight (s.nodes.set r n'))).sum ≤
        (s.tasks.map (Task.weight s.nodes)).sum :=
      List.sum_le_sum fun u _ => hless u
    have hsum := sum_map_set (fun n : Node => 5 * n.object.held.length) n' hn
    have hdisposed := sum_disposeEach_le (s.nodes.set r n') disposed
    have hblocksum : (blocks.map (Task.weight (s.nodes.set r n'))).sum = blocks.length := by
      rw [hblocks]
      split_ifs <;> rfl
    have hlen := hmoves.length_le
    show ((s.tasks ++ disposeEach disposed ++ blocks).map (Task.weight (s.nodes.set r n'))).sum +
      ((s.nodes.set r n').map fun n : Node => 5 * n.object.held.length).sum < _ + (_ + _)
    rw [List.map_append, List.sum_append, List.map_append, List.sum_append, hblocksum]
    omega

/-- A step of a call. -/
def IsStep (_ : Disposables) (e : DisposalEvent) : Prop := ∃ i, e = .step i

/-- Every step of the machine that is one of a call takes weight away. -/
theorem weight_step (h : disposables.Reachable s) (he : IsStep s e)
    (hs : disposables.Step s e s') : s'.weight < s.weight := by
  obtain ⟨i, rfl⟩ := he
  obtain ⟨t, hperm, hperform⟩ := next_step_cases hs.2
  have hless := weight_performs (performs_of_perform
    (s := { s with tasks := s.tasks.eraseIdx i }) (consistent_of_reachable h).ok hperform)
  have heq : s.weight = t.weight s.nodes +
      ({ s with tasks := s.tasks.eraseIdx i } : Disposables).weight := by
    rw [Disposables.weight, (hperm.map _).sum_eq, List.map_cons, List.sum_cons, Nat.add_assoc]
    rfl
  rwa [heq]

/-- A locked section that can be entered. -/
theorem exists_locked {r : Ref} {n : Node} {body : Node → Option (Node × List Ref)}
    (hn : s.nodes[r]? = some n) (hbody : (body n).isSome = true) :
    ∃ s', s.locked r body = some s' := by
  obtain ⟨x, hx⟩ := Option.isSome_iff_exists.mp hbody
  rw [Disposables.locked, hn, Option.bind_eq_bind, Option.bind_some, hx]
  exact ⟨_, rfl⟩

theorem object_of_kind_compound {n : Node} (h : n.object.kind = .compound) :
    ∃ c, n.object = .compound c := by
  cases hobject : n.object with
  | compound c => exact ⟨c, rfl⟩
  | _ =>
    rw [hobject] at h
    cases h

/-- **A valid call can make its next step.** -/
theorem exists_perform (hvalid : t.Valid s.nodes) : ∃ s', s.perform t = some s' := by
  cases t with
  | begin call =>
    cases call with
    | dispose d =>
      have hd : d < s.nodes.length := hvalid
      rw [Disposables.perform, List.getElem?_eq_getElem hd, Option.bind_eq_bind, Option.bind_some]
      cases hobject : s.nodes[d].object with
      | disposable p => exact ⟨_, rfl⟩
      | serial sd =>
        refine exists_locked (List.getElem?_eq_getElem hd) ?_
        rw [Node.dispose, hobject]
        rfl
      | compound c =>
        refine exists_locked (List.getElem?_eq_getElem hd) ?_
        rw [Node.dispose, hobject]
        rfl
    | addDisposable c d =>
      rw [Disposables.perform, List.getElem?_eq_getElem hvalid.2.1, Option.bind_eq_bind,
        Option.bind_some]
      split
      · exact ⟨_, rfl⟩
      · exact ⟨_, rfl⟩
    | removeDisposable c d =>
      obtain ⟨n, hn, hkind⟩ := hvalid
      obtain ⟨compound, hobject⟩ := object_of_kind_compound hkind
      refine exists_locked hn ?_
      rw [Node.removeDisposable, hobject]
      rfl
    | swapInDisposable r d =>
      obtain ⟨⟨n, hn, hkind⟩, -⟩ := hvalid
      cases hobject : n.object with
      | serial sd =>
        refine exists_locked hn ?_
        rw [Node.swapInDisposable, hobject]
        rfl
      | _ =>
        rw [hobject] at hkind
        cases hkind
  | compareAndSwap d p =>
    obtain ⟨n, hn, hkind⟩ := hvalid
    rw [Disposables.perform, hn, Option.bind_eq_bind, Option.bind_some]
    cases hobject : n.object with
    | disposable q =>
      dsimp only
      split
      · exact ⟨_, rfl⟩
      · exact ⟨_, rfl⟩
    | _ =>
      rw [hobject] at hkind
      cases hkind
  | runBlock d => exact ⟨_, rfl⟩
  | lock c d =>
    obtain ⟨⟨n, hn, hkind⟩, -⟩ := hvalid
    obtain ⟨compound, hobject⟩ := object_of_kind_compound hkind
    refine exists_locked hn ?_
    rw [Node.addDisposable, hobject]
    rfl

/-- **Calls come to an end**, also where disposables hold each other in a circle: from any
reachable state, the calls under way make no more steps than their weight, whatever the
order, and there is one in which they come to an end. -/
theorem disposal_terminates (h : disposables.Reachable s) :
    (∀ n s', disposables.Steps IsStep s n s' → n ≤ s.weight) ∧
      ∃ n s', disposables.Steps IsStep s n s' ∧ s'.tasks = [] := by
  have hlower : ∀ s e s', disposables.Reachable s → IsStep s e → disposables.Step s e s' →
      s'.weight < s.weight := fun s e s' => weight_step
  refine ⟨fun n s' hsteps => ?_, ?_⟩
  · exact Nat.le_trans (Nat.le_add_right _ _) (hsteps.length_le hlower h)
  · refine Machine.Reachable.exists_steps hlower (fun s hs hbusy => ?_) h
    obtain ⟨t, ts, htasks⟩ := List.exists_cons_of_ne_nil hbusy
    have hvalid : t.Valid s.nodes :=
      (consistent_of_reachable hs).valid t (by rw [htasks]; exact List.mem_cons_self)
    obtain ⟨s', hperform⟩ := exists_perform (s := { s with tasks := s.tasks.eraseIdx 0 }) hvalid
    refine ⟨.step 0, s', ⟨0, rfl⟩, trivial, ?_⟩
    rw [Disposables.next, htasks]
    rw [htasks] at hperform
    exact hperform

theorem disposal_terminates_circle : ∃ s, disposables.Reachable s ∧ s.tasks ≠ [] ∧
    (∀ n s', disposables.Steps IsStep s n s' → n ≤ s.weight) ∧
    ∃ n s', disposables.Steps IsStep s n s' ∧ s'.tasks = [] :=
  ⟨_, reachable_of_events circle rfl, List.cons_ne_nil _ _,
    disposal_terminates (reachable_of_events circle rfl)⟩

end LANScan.ReactiveCocoa
