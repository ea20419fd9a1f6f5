import Mathlib.Data.Finset.Erase
import Mathlib.Data.Fintype.EquivFin

/-!
# Tables of descriptors

Numbers that stand for open resources.  Whoever opens one gets the lowest number that is
free, as long as it is below a limit; a number that is released can be given out again.

## Main definitions

* `Descriptors`, `Descriptors.lowest`.
* `Descriptors.allocate`, `Descriptors.release`.

## Main results

* `allocate_eq_some_iff` — what is given out is the lowest number that is free.
* `release_take` — releasing what was given out last gives the table back.
-/

/-- The descriptors in use, and the number that all of them are below. -/
structure Descriptors where
  inUse : Finset ℕ
  limit : ℕ

namespace Descriptors

/-- Some number is always free. -/
theorem exists_free (t : Descriptors) : ∃ n, n ∉ t.inUse := Infinite.exists_notMem_finset t.inUse

/-- The lowest number that is free. -/
def lowest (t : Descriptors) : ℕ := Nat.find t.exists_free

theorem lowest_notMem (t : Descriptors) : t.lowest ∉ t.inUse := Nat.find_spec t.exists_free

theorem lowest_le {t : Descriptors} {n : ℕ} (h : n ∉ t.inUse) : t.lowest ≤ n :=
  Nat.find_min' t.exists_free h

theorem lowest_eq_zero_iff {t : Descriptors} : t.lowest = 0 ↔ 0 ∉ t.inUse := by
  constructor
  · intro h
    rw [← h]
    exact t.lowest_notMem
  · exact fun h => Nat.le_zero.mp (lowest_le h)

/-- The table with one more number in use. -/
def take (t : Descriptors) (n : ℕ) : Descriptors := { t with inUse := insert n t.inUse }

/-- The lowest number that is free is given out. -/
def allocate (t : Descriptors) : Option (ℕ × Descriptors) :=
  if t.lowest < t.limit then some (t.lowest, t.take t.lowest) else none

/-- A number is free again; releasing one that is free changes nothing. -/
def release (t : Descriptors) (n : ℕ) : Descriptors := { t with inUse := t.inUse.erase n }

theorem allocate_eq_some_iff {t t' : Descriptors} {n : ℕ} :
    t.allocate = some (n, t') ↔ n = t.lowest ∧ n < t.limit ∧ t' = t.take n := by
  rw [allocate]
  split
  next hlt =>
    rw [Option.some_inj, Prod.mk.injEq]
    constructor
    · rintro ⟨rfl, rfl⟩
      exact ⟨rfl, hlt, rfl⟩
    · rintro ⟨rfl, -, rfl⟩
      exact ⟨rfl, rfl⟩
  next hge =>
    constructor
    · intro h
      cases h
    · rintro ⟨rfl, hlt, -⟩
      exact absurd hlt hge

theorem release_take (t : Descriptors) : (t.take t.lowest).release t.lowest = t := by
  rw [take, release, Finset.erase_insert t.lowest_notMem]

end Descriptors
