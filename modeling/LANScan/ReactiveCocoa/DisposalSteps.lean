import LANScan.ReactiveCocoa.Disposal

/-!
# The steps of disposables

What one step of a call can do is said once; the invariant of the disposables and their
calls follows from it, and so does everything else that is proved of their runs.

## Main definitions

* `Performs` — the cases of a step.
* `Consistent` — the invariant of the disposables and their calls.

## Main results

* `performs_of_perform` — **every step is one of the cases.**
* `Consistent.next` — every step keeps the invariant.
* `block_runs_once` — **no block runs twice, or before its disposable is disposed of, and
  none is left out.**
-/

namespace LANScan.ReactiveCocoa

variable {s s' : Disposables} {t : Task} {e : DisposalEvent}

/-! ### The cases of a step -/

namespace Task

/-- The call disposes of `r`. -/
def Disposes (r : Ref) : Task → Prop
  | begin (.dispose d) => d = r
  | compareAndSwap d _ => d = r
  | _ => False

/-- What a call brings along for a disposable to hold. -/
def given : Task → List Ref
  | lock _ d => [d]
  | begin (.swapInDisposable _ d) => d.toList
  | _ => []

/-- The steps a call has left, where each disposable given away counts for five. -/
def weight (nodes : List Node) : Task → ℕ
  | begin (.dispose d) =>
    if nodes[d]?.map Node.object = some (.disposable .null) then 2 else 5
  | compareAndSwap d blockPtr =>
    if nodes[d]?.map Node.object = some (.disposable .null) then if blockPtr = .null then 1 else 3
    else if nodes[d]?.map Node.object = some (.disposable blockPtr) then 4 else 6
  | runBlock _ => 1
  | begin (.addDisposable ..) => 7
  | lock .. => 6
  | begin (.removeDisposable ..) => 1
  | begin (.swapInDisposable ..) => 6

/-- The receiver of the call exists and is of the right class, and the argument exists. -/
def Valid (nodes : List Node) : Task → Prop
  | begin call => call.Valid nodes
  | compareAndSwap d _ => IsKind nodes d .disposable
  | runBlock d => d < nodes.length
  | lock c d => IsKind nodes c .compound ∧ d < nodes.length

end Task

/-- The calls that dispose of each of some disposables. -/
def disposeEach (ds : List Ref) : List Task := ds.map fun d => .begin (.dispose d)

/-- The cases of a step of a call. -/
inductive Performs (s : Disposables) : Task → Disposables → Prop
  | read {d : Ref} {n : Node} {p : DisposeBlock} (hn : s.nodes[d]? = some n)
    (hp : n.object = .disposable p) :
    Performs s (.begin (.dispose d)) { s with tasks := s.tasks ++ [.compareAndSwap d p] }
  | retry {d : Ref} {n : Node} {p q : DisposeBlock} (hn : s.nodes[d]? = some n)
    (hq : n.object = .disposable q) (hne : q ≠ p) :
    Performs s (.compareAndSwap d p) { s with tasks := s.tasks ++ [.begin (.dispose d)] }
  | skip {c d : Ref} : Performs s (.begin (.addDisposable c d)) s
  | check {c d : Ref} :
    Performs s (.begin (.addDisposable c d)) { s with tasks := s.tasks ++ [.lock c d] }
  | run {d : Ref} : Performs s (.runBlock d) { s with ran := s.ran ++ [d] }
  | moved {t : Task} {r : Ref} {n n' : Node} {disposes : Bool} {disposed : List Ref}
    {blocks : List Task} (hn : s.nodes[r]? = some n) (hmoves : n.Moves t.given disposes n' disposed)
    (hdisposes : ∀ d, t.Disposes d ↔ disposes = true ∧ d = r)
    (hplain : n.object.kind = .disposable → disposes = true)
    (hblocks : blocks = if n.object = .disposable .block then [.runBlock r] else [])
    (hrun : ∀ d, t ≠ .runBlock d)
    (hweight : blocks.length + 5 * t.given.length < t.weight s.nodes) :
    Performs s t
      { s with
        nodes := s.nodes.set r n'
        tasks := s.tasks ++ disposeEach disposed ++ blocks }

/-- A locked section on a container is a move. -/
theorem Performs.of_locked {r : Ref} {body : Node → Option (Node × List Ref)} {disposes : Bool}
    (hmoves : ∀ n n' disposed, s.nodes[r]? = some n → body n = some (n', disposed) →
      n.object.kind ≠ .disposable ∧ n.Moves t.given disposes n' disposed)
    (hdisposes : ∀ d, t.Disposes d ↔ disposes = true ∧ d = r)
    (hrun : ∀ d, t ≠ .runBlock d) (hweight : 5 * t.given.length < t.weight s.nodes)
    (h : s.locked r body = some s') : Performs s t s' := by
  obtain ⟨n, hn, h⟩ := Option.bind_eq_some_iff.mp h
  obtain ⟨⟨n', disposed⟩, hbody, h⟩ := Option.bind_eq_some_iff.mp h
  obtain rfl := Option.some.inj h
  obtain ⟨hkind, hmove⟩ := hmoves n n' disposed hn hbody
  have hblocks : ([] : List Task) =
      if n.object = .disposable .block then [.runBlock r] else [] := by
    rw [if_neg]
    intro hblock
    rw [hblock] at hkind
    exact hkind rfl
  have hmoved := Performs.moved hn hmove hdisposes (fun h => absurd h hkind) hblocks hrun
    (by rw [List.length_nil, Nat.zero_add]; exact hweight)
  rwa [List.append_nil] at hmoved

/-- **What a step of a call does.** -/
theorem performs_of_perform (hok : ∀ (r : Ref) n, s.nodes[r]? = some n → n.Ok)
    (h : s.perform t = some s') : Performs s t s' := by
  have hnone : ∀ r d : Ref, False ↔ false = true ∧ d = r := fun r d => by simp
  cases t with
  | begin call =>
    cases call with
    | dispose d =>
      obtain ⟨n, hn, h⟩ := Option.bind_eq_some_iff.mp h
      have hself : ∀ r : Ref, d = r ↔ true = true ∧ r = d :=
        fun r => ⟨fun hr => ⟨rfl, hr.symm⟩, fun hr => hr.2.symm⟩
      cases hobject : n.object with
      | disposable p =>
        simp only [hobject] at h
        obtain rfl := Option.some.inj h
        exact .read hn hobject
      | _ =>
        simp only [hobject] at h
        refine .of_locked (fun n n' disposed hn hbody => Node.dispose_moves (hok d n hn) hbody)
          hself (fun d h => by cases h) ?_ h
        simp [Task.weight, Task.given, hn, hobject]
    | addDisposable c d =>
      obtain ⟨n, hn, h⟩ := Option.bind_eq_some_iff.mp h
      split at h
      next =>
        obtain rfl := Option.some.inj h
        exact .skip
      next =>
        obtain rfl := Option.some.inj h
        exact .check
    | removeDisposable c d =>
      exact .of_locked
        (fun n n' disposed hn hbody => Node.removeDisposable_moves (hok c n hn) hbody)
        (hnone c) (fun d h => by cases h) Nat.zero_lt_one h
    | swapInDisposable r d =>
      refine .of_locked
        (fun n n' disposed hn hbody => Node.swapInDisposable_moves (hok r n hn) hbody)
        (hnone r) (fun d h => by cases h) ?_ h
      cases d with
      | none => exact Nat.succ_pos 5
      | some d => exact Nat.lt_succ_self 5
  | compareAndSwap d p =>
    obtain ⟨n, hn, h⟩ := Option.bind_eq_some_iff.mp h
    cases hobject : n.object with
    | disposable q =>
      simp only [hobject] at h
      split at h
      next hpq =>
        subst hpq
        obtain rfl := Option.some.inj h
        have hself : ∀ r : Ref, d = r ↔ true = true ∧ r = d :=
          fun r => ⟨fun hr => ⟨rfl, hr.symm⟩, fun hr => hr.2.symm⟩
        have hblocks : (if q = .block then [Task.runBlock d] else []) =
            if n.object = .disposable .block then [.runBlock d] else [] := by
          simp only [hobject, Object.disposable.injEq]
        have hmoved := Performs.moved (t := .compareAndSwap d q) hn
          (Node.swap_moves (hok d n hn) hobject) hself (fun _ => rfl) hblocks
          (fun d h => by cases h) ?_
        · rwa [disposeEach, List.map_nil, List.append_nil] at hmoved
        · cases q <;> simp [Task.weight, Task.given, hn, hobject]
      next hpq =>
        obtain rfl := Option.some.inj h
        exact .retry hn hobject hpq
    | _ =>
      simp only [hobject] at h
      cases h
  | runBlock d =>
    obtain rfl := Option.some.inj h
    exact .run
  | lock c d =>
    exact .of_locked
      (fun n n' disposed hn hbody => Node.addDisposable_moves (hok c n hn) hbody)
      (hnone c) (fun d h => by cases h) (Nat.lt_succ_self 5) h

/-! ### Changing one disposable -/

/-- What exists keeps its class. -/
theorem IsKind.set {nodes : List Node} {r a : Ref} {n n' : Node} {kind : Kind}
    (hn : nodes[r]? = some n) (hkind : n'.object.kind = n.object.kind)
    (h : IsKind nodes a kind) : IsKind (nodes.set r n') a kind := by
  obtain ⟨m, hm, rfl⟩ := h
  by_cases har : a = r
  · subst har
    obtain rfl := Option.some.inj (hn.symm.trans hm)
    exact ⟨n', getElem?_set_self' hn, hkind⟩
  · exact ⟨m, by rw [List.getElem?_set_ne (fun hra => har hra.symm), hm], rfl⟩

/-- Calls stay valid while disposables keep their classes. -/
theorem Task.Valid.mono {nodes nodes' : List Node} (hlen : nodes.length ≤ nodes'.length)
    (hkind : ∀ r kind, IsKind nodes r kind → IsKind nodes' r kind) (h : t.Valid nodes) :
    t.Valid nodes' := by
  cases t with
  | begin call =>
    cases call with
    | dispose d => exact Nat.lt_of_lt_of_le h hlen
    | addDisposable c d => exact ⟨hkind _ _ h.1, Nat.lt_of_lt_of_le h.2.1 hlen, h.2.2⟩
    | removeDisposable c d => exact hkind _ _ h
    | swapInDisposable r d =>
      exact ⟨hkind _ _ h.1, fun d hd => Nat.lt_of_lt_of_le (h.2 d hd) hlen⟩
  | compareAndSwap d p => exact hkind _ _ h
  | runBlock d => exact Nat.lt_of_lt_of_le h hlen
  | lock c d => exact ⟨hkind _ _ h.1, Nat.lt_of_lt_of_le h.2 hlen⟩

/-- What a valid call gives away exists. -/
theorem Task.Valid.given_lt {nodes : List Node} (h : t.Valid nodes) :
    ∀ d ∈ t.given, d < nodes.length := by
  intro d hd
  cases t with
  | begin call =>
    cases call with
    | swapInDisposable r d' => exact h.2 d (Option.mem_toList.mp hd)
    | _ => cases hd
  | lock c d' =>
    obtain rfl := List.mem_singleton.mp hd
    exact h.2
  | _ => cases hd

/-! ### The invariant of the disposables and their calls -/

/-- What is recorded about the disposables agrees with them, nothing dangles, and blocks
are counted. -/
structure Consistent (s : Disposables) : Prop where
  ok : ∀ (r : Ref) n, s.nodes[r]? = some n → n.Ok
  held_lt : ∀ (r : Ref) n, s.nodes[r]? = some n → ∀ d ∈ n.object.held, d < s.nodes.length
  valid : ∀ t ∈ s.tasks, t.Valid s.nodes
  count_eq : ∀ (r : Ref) n, s.nodes[r]? = some n →
    s.ran.count r + s.tasks.count (.runBlock r) =
      if n.object.isDisposed = true ∧ n.hasBlock = true then 1 else 0
  ran_lt : ∀ r ∈ s.ran, r < s.nodes.length

theorem Consistent.perm {ts : List Task} (h : Consistent s) (hperm : s.tasks.Perm ts) :
    Consistent { s with tasks := ts } where
  ok := h.ok
  held_lt := h.held_lt
  valid t ht := h.valid t (hperm.mem_iff.mpr ht)
  count_eq r n hn := by
    show s.ran.count r + ts.count (.runBlock r) = _
    rw [← hperm.count_eq]
    exact h.count_eq r n hn
  ran_lt := h.ran_lt

/-- A call that begins another one in place of itself. -/
theorem Consistent.replace {t : Task} {ts : List Task}
    (h : Consistent { s with tasks := t :: s.tasks }) (hrun : ∀ d, t ≠ .runBlock d)
    (hruns : ∀ d, .runBlock d ∉ ts) (hvalid : ∀ t ∈ ts, t.Valid s.nodes) :
    Consistent { s with tasks := s.tasks ++ ts } where
  ok := h.ok
  held_lt := h.held_lt
  valid u hu := by
    rcases List.mem_append.mp hu with hu | hu
    · exact h.valid u (List.mem_cons_of_mem t hu)
    · exact hvalid u hu
  count_eq r n hn := by
    rw [← h.count_eq r n hn]
    show s.ran.count r + (s.tasks ++ ts).count (.runBlock r) =
      s.ran.count r + (t :: s.tasks).count (.runBlock r)
    rw [List.count_append, List.count_eq_zero_of_not_mem (hruns r),
      List.count_cons_of_ne (hrun r), Nat.add_zero]
  ran_lt := h.ran_lt

theorem not_mem_disposeEach {ds : List Ref} {d : Ref} : .runBlock d ∉ disposeEach ds := by
  simp [disposeEach]

/-- Only an open plain disposable with a block becomes one that is disposed of and has a
block. -/
theorem Node.Moves.count_eq {n n' : Node} {given disposed : List Ref} {disposes : Bool}
    (hok : n.Ok) (h : n.Moves given disposes n' disposed)
    (hcloses : n.object = .disposable .block → disposes = true) :
    (if n.object.isDisposed = true ∧ n.hasBlock = true then 1 else 0) +
        (if n.object = .disposable .block then 1 else 0) =
      if n'.object.isDisposed = true ∧ n'.hasBlock = true then 1 else 0 := by
  rw [h.isDisposed_eq, h.hasBlock_eq]
  cases hd : n.object.isDisposed with
  | true =>
    have hne : n.object ≠ .disposable .block := by
      intro heq
      rw [heq] at hd
      cases hd
    simp [hne]
  | false =>
    have hblock := hok.hasBlock_iff hd
    by_cases hobject : n.object = .disposable .block
    · simp [hobject, hcloses hobject, hblock.mp hobject]
    · have hno : n.hasBlock = false := Bool.eq_false_iff.mpr fun h => hobject (hblock.mpr h)
      simp [hobject, hno]

/-- **A step of a call keeps the invariant.** -/
theorem Consistent.performs (h : Consistent { s with tasks := t :: s.tasks })
    (hp : Performs s t s') : Consistent s' := by
  have hself : t.Valid s.nodes := h.valid t List.mem_cons_self
  cases hp with
  | read hn hobject =>
    refine h.replace (fun d h => by cases h) (by simp) (fun u hu => ?_)
    obtain rfl := List.mem_singleton.mp hu
    exact ⟨_, hn, by rw [hobject]; rfl⟩
  | retry hn hobject hne =>
    refine h.replace (fun d h => by cases h) (by simp) (fun u hu => ?_)
    obtain rfl := List.mem_singleton.mp hu
    exact (List.getElem?_eq_some_iff.mp hn).1
  | skip =>
    have hnone : Consistent { s with tasks := s.tasks ++ [] } :=
      h.replace (fun d h => by cases h) (by simp) (fun u hu => by cases hu)
    rwa [List.append_nil] at hnone
  | check =>
    refine h.replace (fun d h => by cases h) (by simp) (fun u hu => ?_)
    obtain rfl := List.mem_singleton.mp hu
    exact ⟨hself.1, hself.2.1⟩
  | @run d =>
    refine ⟨h.ok, h.held_lt, fun u hu => h.valid u (List.mem_cons_of_mem _ hu), fun r n hn => ?_,
      fun r hr => ?_⟩
    · rw [← h.count_eq r n hn]
      show (s.ran ++ [d]).count r + s.tasks.count (.runBlock r) =
        s.ran.count r + (Task.runBlock d :: s.tasks).count (.runBlock r)
      rw [List.count_append, List.count_cons, List.count_cons, List.count_nil]
      simp only [beq_iff_eq, Task.runBlock.injEq]
      omega
    · rcases List.mem_append.mp hr with hr | hr
      · exact h.ran_lt r hr
      · obtain rfl := List.mem_singleton.mp hr
        exact hself
  | @moved _ r n n' disposes disposed blocks hn hmoves hdisposes hplain hblocks hrun hweight =>
    have hr : r < s.nodes.length := (List.getElem?_eq_some_iff.mp hn).1
    have hlen : (s.nodes.set r n').length = s.nodes.length := List.length_set
    have hmono : ∀ u : Task, u.Valid s.nodes → u.Valid (s.nodes.set r n') := fun u hu =>
      hu.mono (Nat.le_of_eq hlen.symm) fun a kind ha => ha.set hn hmoves.kind_eq
    have hlt : ∀ x, x ∈ disposed ∨ x ∈ n'.object.held → x < s.nodes.length := by
      intro x hx
      rcases hmoves.mem x hx with hx | hx
      · exact h.held_lt r n hn x hx
      · exact hself.given_lt x hx
    refine ⟨fun a m hm => ?_, fun a m hm d hd => ?_, fun u hu => ?_, fun a m hm => ?_,
      fun a ha => ?_⟩
    · rcases getElem?_set_cases hm with ⟨rfl, rfl⟩ | ⟨-, hm⟩
      · exact hmoves.ok
      · exact h.ok a m hm
    · rw [hlen]
      rcases getElem?_set_cases hm with ⟨rfl, rfl⟩ | ⟨-, hm⟩
      · exact hlt d (Or.inr hd)
      · exact h.held_lt a m hm d hd
    · rcases List.mem_append.mp hu with hu | hu
      · rcases List.mem_append.mp hu with hu | hu
        · exact hmono u (h.valid u (List.mem_cons_of_mem t hu))
        · obtain ⟨d, hd, rfl⟩ := List.mem_map.mp hu
          exact hmono _ (hlt d (Or.inl hd))
      · rw [hblocks] at hu
        split_ifs at hu
        · obtain rfl := List.mem_singleton.mp hu
          exact hmono _ hr
        · cases hu
    · have hcount : (s.tasks ++ disposeEach disposed ++ blocks).count (.runBlock a) =
          (t :: s.tasks).count (.runBlock a) + blocks.count (.runBlock a) := by
        rw [List.count_append, List.count_append, List.count_cons_of_ne (hrun a),
          List.count_eq_zero_of_not_mem (not_mem_disposeEach), Nat.add_zero]
      show s.ran.count a + (s.tasks ++ disposeEach disposed ++ blocks).count (.runBlock a) = _
      rw [hcount, ← Nat.add_assoc, hblocks]
      rcases getElem?_set_cases hm with ⟨rfl, rfl⟩ | ⟨hne, hm⟩
      · have hcloses : n.object = .disposable .block → disposes = true := fun heq =>
          hplain (by rw [heq]; rfl)
        rw [← hmoves.count_eq (h.ok a n hn) hcloses, ← h.count_eq a n hn]
        split_ifs
        · rw [List.count_singleton_self]
        · rfl
      · rw [← h.count_eq a m hm]
        have hzero : [Task.runBlock r].count (.runBlock a) = 0 :=
          List.count_eq_zero_of_not_mem (by simp [hne])
        split_ifs
        · rw [hzero]
          rfl
        · rfl
    · rw [hlen]
      exact h.ran_lt a ha

/-- A step of the machine is a step of one of the calls. -/
theorem next_step_cases {i : ℕ} (h : s.next (.step i) = some s') :
    ∃ t, s.tasks.Perm (t :: s.tasks.eraseIdx i) ∧
      ({ s with tasks := s.tasks.eraseIdx i } : Disposables).perform t = some s' := by
  obtain ⟨t, ht, h⟩ := Option.bind_eq_some_iff.mp h
  obtain ⟨hi, rfl⟩ := List.getElem?_eq_some_iff.mp ht
  exact ⟨_, (List.getElem_cons_eraseIdx_perm hi).symm, h⟩

/-- A new disposable. -/
theorem Consistent.create (h : Consistent s) {n : Node} (hok : n.Ok)
    (hopen : n.object.isDisposed = false) (hheld : ∀ d ∈ n.object.held, d < s.nodes.length) :
    Consistent (s.create n) := by
  have hlen : s.nodes.length ≤ (s.nodes ++ [n]).length := by simp
  refine ⟨fun a m hm => ?_, fun a m hm d hd => ?_, fun t ht => ?_, fun a m hm => ?_,
    fun a ha => Nat.lt_of_lt_of_le (h.ran_lt a ha) hlen⟩
  · rcases getElem?_append_cases hm with hm | ⟨-, rfl⟩
    · exact h.ok a m hm
    · exact hok
  · rcases getElem?_append_cases hm with hm | ⟨-, rfl⟩
    · exact Nat.lt_of_lt_of_le (h.held_lt a m hm d hd) hlen
    · exact Nat.lt_of_lt_of_le (hheld d hd) hlen
  · refine (h.valid t ht).mono hlen fun r kind hkind => ?_
    obtain ⟨m, hm, hkind⟩ := hkind
    exact ⟨m, (List.getElem?_append_left (List.getElem?_eq_some_iff.mp hm).1).trans hm, hkind⟩
  · rcases getElem?_append_cases hm with hm | ⟨rfl, rfl⟩
    · exact h.count_eq a m hm
    · -- nothing has been done to it
      have hran : s.ran.count s.nodes.length = 0 :=
        List.count_eq_zero_of_not_mem fun hmem => Nat.lt_irrefl _ (h.ran_lt _ hmem)
      have htasks : s.tasks.count (.runBlock s.nodes.length) = 0 :=
        List.count_eq_zero_of_not_mem fun hmem => Nat.lt_irrefl _ (h.valid _ hmem)
      show s.ran.count s.nodes.length + s.tasks.count (.runBlock s.nodes.length) = _
      rw [hran, htasks, hopen]
      rfl

/-- A call from outside. -/
theorem Consistent.receive (h : Consistent s) {call : Call} (hvalid : call.Valid s.nodes) :
    Consistent (s.receive call) where
  ok := h.ok
  held_lt := h.held_lt
  valid t ht := by
    rcases List.mem_append.mp ht with ht | ht
    · exact h.valid t ht
    · obtain rfl := List.mem_singleton.mp ht
      exact hvalid
  count_eq r n hn := by
    rw [← h.count_eq r n hn]
    show s.ran.count r + (s.tasks ++ [Task.begin call]).count (Task.runBlock r) = _
    rw [List.count_append]
    rfl
  ran_lt := h.ran_lt

/-- **Every step keeps the invariant.** -/
theorem Consistent.next (h : Consistent s) (hen : s.Enabled e) (hs : s.next e = some s') :
    Consistent s' := by
  cases e with
  | init =>
    obtain rfl := Option.some.inj hs
    exact h.create Node.ok_init rfl fun d hd => by cases hd
  | initWithBlock =>
    obtain rfl := Option.some.inj hs
    exact h.create Node.ok_initWithBlock rfl fun d hd => by cases hd
  | serial =>
    obtain rfl := Option.some.inj hs
    exact h.create Node.ok_serial rfl fun d hd => by cases hd
  | compound l =>
    obtain rfl := Option.some.inj hs
    refine h.create (Node.ok_compound l) rfl fun d hd => hen d ?_
    exact ((Node.ok_compound l).mem_held_iff rfl d).mp hd
  | call call =>
    obtain rfl := Option.some.inj hs
    exact h.receive hen
  | step i =>
    obtain ⟨t, hperm, hperform⟩ := next_step_cases hs
    exact Consistent.performs (s := { s with tasks := s.tasks.eraseIdx i }) (h.perm hperm)
      (performs_of_perform h.ok hperform)

theorem consistent_of_reachable (h : disposables.Reachable s) : Consistent s :=
  h.invariant ⟨fun r n hn => (by cases hn), fun r n hn => (by cases hn), fun t ht => (by cases ht),
    fun r n hn => (by cases hn), fun r hr => by cases hr⟩ fun _ _ _ hi hs => hi.next hs.1 hs.2

/-! ### Blocks -/

/-- **No block runs twice, or before its disposable is disposed of, and none is left
out**: in every reachable state each block has run at most once, and only if its disposable
is disposed of; and once no call is under way it has run exactly then. -/
theorem block_runs_once (h : disposables.Reachable s) :
    (∀ d : Ref, s.ran.count d ≤ 1) ∧
    (∀ d ∈ s.ran, ∃ n, s.nodes[d]? = some n ∧ n.object.isDisposed = true ∧ n.hasBlock = true) ∧
    (s.tasks = [] → ∀ (d : Ref) n, s.nodes[d]? = some n →
      s.ran.count d = if n.object.isDisposed = true ∧ n.hasBlock = true then 1 else 0) := by
  have hs := consistent_of_reachable h
  have hmem : ∀ d ∈ s.ran, ∃ n, s.nodes[d]? = some n := fun d hd =>
    ⟨_, List.getElem?_eq_getElem (hs.ran_lt d hd)⟩
  refine ⟨fun d => ?_, fun d hd => ?_, fun hquiet d n hn => ?_⟩
  · by_cases hd : d ∈ s.ran
    · obtain ⟨n, hn⟩ := hmem d hd
      have hcount := hs.count_eq d n hn
      split_ifs at hcount <;> omega
    · rw [List.count_eq_zero_of_not_mem hd]
      exact Nat.zero_le 1
  · obtain ⟨n, hn⟩ := hmem d hd
    refine ⟨n, hn, ?_⟩
    by_contra hno
    have hcount := hs.count_eq d n hn
    rw [if_neg hno] at hcount
    have hpos := List.count_pos_iff.mpr hd
    omega
  · have hcount := hs.count_eq d n hn
    rwa [hquiet, List.count_nil, Nat.add_zero] at hcount

/-- A compound disposable that holds a serial one and one with a block, and is held by the
serial one in turn; a call to dispose of the serial one has begun. -/
def circle : List DisposalEvent :=
  [.compound [], .serial, .initWithBlock, .call (.addDisposable 0 1), .step 0, .step 0,
    .call (.addDisposable 0 2), .step 0, .step 0, .call (.swapInDisposable 1 (some 0)), .step 0,
    .call (.dispose 1)]

/-- The steps that are left then. -/
def circleDisposed : List DisposalEvent := circle ++ List.replicate 6 (.step 0)

theorem block_runs_once_circle : ∃ s, disposables.Reachable s ∧ s.tasks = [] ∧
    s.ran.count 2 = 1 ∧ ∀ d : Ref, s.ran.count d ≤ 1 := by
  have hrun : ∃ s, disposables.Reachable s ∧ s.tasks = [] ∧
      s.nodes[2]? = some ⟨.disposable .null, [], true⟩ :=
    ⟨_, reachable_of_events circleDisposed rfl, rfl, rfl⟩
  obtain ⟨s, hreach, hquiet, hnode⟩ := hrun
  obtain ⟨hcount, -, hall⟩ := block_runs_once hreach
  exact ⟨s, hreach, hquiet, hall hquiet 2 _ hnode, hcount⟩

end LANScan.ReactiveCocoa
