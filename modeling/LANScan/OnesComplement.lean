import Mathlib.Algebra.GroupWithZero.Nat
import Mathlib.Data.List.Basic

/-!
# One's-complement sums

Addition of words from `0` to `m` with an end-around carry.  Where `m + 1` is a power
of two this is one's-complement addition, in which `0` and `m` both stand for zero.
A sum is computed by adding the words as numbers and folding the carries back in; it
does not matter to it in which order the two digits of each word are written.

## Main definitions

* `add`, `sum` — addition with an end-around carry.
* `norm` — the word that a number of any size folds to.
* `swapDigits` — a word of two digits with its digits exchanged.

## Main results

* `sum_eq_norm` — carries can be folded back in at the end.
* `two_folds` — folding twice is enough.
* `sum_map_swapDigits` — sums commute with exchanging digits.
* `sum_complement` — the complement of a sum completes the sum to `m`.
-/

namespace OnesComplement

variable {m : ℕ}

/-- Addition with an end-around carry. -/
def add (m a b : ℕ) : ℕ := if a + b ≤ m then a + b else a + b - m

/-- The sum of words, one after the other. -/
def sum (m : ℕ) (words : List ℕ) : ℕ := words.foldl (add m) 0

/-- The word a number folds to: the one that differs from it by a multiple of `m`, and
is `0` for `0` only. -/
def norm (m n : ℕ) : ℕ := if n = 0 then 0 else (n - 1) % m + 1

theorem add_le {a b : ℕ} (ha : a ≤ m) (hb : b ≤ m) : add m a b ≤ m := by
  unfold add
  split <;> omega

/-! ### The word of a number -/

@[simp] theorem norm_zero : norm m 0 = 0 := rfl

theorem norm_of_le {n : ℕ} (h : n ≤ m) : norm m n = n := by
  unfold norm
  split
  next hn => exact hn.symm
  next hn => rw [Nat.mod_eq_of_lt (by omega), Nat.sub_add_cancel (by omega)]

theorem norm_add_mul {n : ℕ} (k : ℕ) (hn : n ≠ 0) : norm m (n + k * m) = norm m n := by
  have hpred : n + k * m - 1 = (n - 1) + k * m := by omega
  rw [norm, norm, if_neg hn, if_neg (by omega), hpred, Nat.add_mul_mod_self_right]

/-- What makes a word the one a number folds to. -/
theorem eq_norm {x n k : ℕ} (hx : x ≤ m) (hn : n = x + k * m) (hzero : x = 0 → n = 0) :
    x = norm m n := by
  by_cases h : x = 0
  · rw [hzero h, norm_zero, h]
  · rw [hn, norm_add_mul k h, norm_of_le hx]

theorem exists_norm_add_mul (m n : ℕ) : ∃ k, n = norm m n + k * m := by
  unfold norm
  split
  next hn => exact ⟨0, by omega⟩
  next hn =>
    have hdiv := Nat.div_add_mod' (n - 1) m
    exact ⟨(n - 1) / m, by omega⟩

theorem norm_eq_zero {n : ℕ} : norm m n = 0 ↔ n = 0 := by
  unfold norm
  split <;> simp_all

/-- A summand can be folded first. -/
theorem norm_norm_add (m a b : ℕ) : norm m (norm m a + b) = norm m (a + b) := by
  obtain ⟨k, hk⟩ := exists_norm_add_mul m a
  by_cases h : norm m a + b = 0
  · have ha : a = 0 := norm_eq_zero.mp (Nat.eq_zero_of_add_eq_zero_right h)
    rw [ha, norm_zero]
  · have hsum : a + b = (norm m a + b) + k * m := by omega
    rw [hsum, norm_add_mul k h]

/-- A factor can be folded first. -/
theorem norm_mul_norm (m c n : ℕ) : norm m (c * norm m n) = norm m (c * n) := by
  obtain ⟨k, hk⟩ := exists_norm_add_mul m n
  by_cases h : c * norm m n = 0
  · have hzero : c * n = 0 := by
      rcases Nat.mul_eq_zero.mp h with hc | hn
      · rw [hc, Nat.zero_mul]
      · rw [norm_eq_zero.mp hn, Nat.mul_zero]
    rw [h, hzero]
  · have hmul : c * n = c * norm m n + c * k * m := by
      rw [Nat.mul_assoc, ← Nat.mul_add, ← hk]
    rw [hmul, norm_add_mul (c * k) h]

/-- **Adding the high part of a number to its low part** does not change the word it
folds to. -/
theorem norm_fold (m n : ℕ) : norm m (n / (m + 1) + n % (m + 1)) = norm m n := by
  have hdiv := Nat.div_add_mod' n (m + 1)
  rw [Nat.mul_add, Nat.mul_one] at hdiv
  generalize n / (m + 1) = high at hdiv ⊢
  generalize n % (m + 1) = low at hdiv ⊢
  by_cases h : high + low = 0
  · obtain ⟨rfl, rfl⟩ := Nat.add_eq_zero_iff.mp h
    rw [← hdiv, Nat.zero_mul]
  · rw [show n = (high + low) + high * m by omega, norm_add_mul high h]

/-- **Two folds are enough** for a number whose high part is a word: the low part of
what they leave is the word, no carry is lost. -/
theorem two_folds {n folded : ℕ} (hfolded : folded = n / (m + 1) + n % (m + 1))
    (hhigh : n / (m + 1) ≤ m) : (folded + folded / (m + 1)) % (m + 1) = norm m n := by
  have hlow : n % (m + 1) < m + 1 := Nat.mod_lt n (by omega)
  rw [← norm_fold, ← hfolded]
  rcases Nat.lt_or_ge folded (m + 1) with h | h
  · -- there is no carry left
    rw [Nat.div_eq_of_lt h, Nat.add_zero, Nat.mod_eq_of_lt h, norm_of_le (by omega)]
  · have hcarry : folded / (m + 1) = 1 := Nat.div_eq_of_lt_le (by omega) (by omega)
    rw [hcarry, Nat.mod_eq_sub_mod (by omega), Nat.mod_eq_of_lt (by omega)]
    exact eq_norm (k := 1) (by omega) (by omega) (by omega)

/-! ### Sums -/

theorem add_eq_norm {a b : ℕ} (ha : a ≤ m) (hb : b ≤ m) : add m a b = norm m (a + b) := by
  unfold add
  split
  next h => exact (norm_of_le h).symm
  next h => exact eq_norm (k := 1) (by omega) (by omega) (by omega)

theorem foldl_add_eq_norm : ∀ {words : List ℕ} {a : ℕ}, a ≤ m → (∀ w ∈ words, w ≤ m) →
    words.foldl (add m) a = norm m (a + words.sum)
  | [], a, ha, _ => by
    rw [List.foldl_nil, List.sum_nil, Nat.add_zero, norm_of_le ha]
  | w :: words, a, ha, hwords => by
    have hw : w ≤ m := hwords w List.mem_cons_self
    rw [List.foldl_cons, foldl_add_eq_norm (add_le ha hw) fun v hv =>
      hwords v (List.mem_cons_of_mem w hv), add_eq_norm ha hw, norm_norm_add, List.sum_cons,
      Nat.add_assoc]

/-- **Carries can be folded back in at the end.** -/
theorem sum_eq_norm {words : List ℕ} (hwords : ∀ w ∈ words, w ≤ m) :
    sum m words = norm m words.sum := by
  rw [sum, foldl_add_eq_norm (Nat.zero_le m) hwords, Nat.zero_add]

theorem foldl_add_le : ∀ {words : List ℕ} {a : ℕ}, a ≤ m → (∀ w ∈ words, w ≤ m) →
    words.foldl (add m) a ≤ m
  | [], _, ha, _ => ha
  | w :: words, a, ha, hwords => by
    rw [List.foldl_cons]
    exact foldl_add_le (add_le ha (hwords w List.mem_cons_self)) fun v hv =>
      hwords v (List.mem_cons_of_mem w hv)

theorem sum_le {words : List ℕ} (hwords : ∀ w ∈ words, w ≤ m) : sum m words ≤ m :=
  foldl_add_le (Nat.zero_le m) hwords

/-- **The complement of a sum, put in the place of a zero, completes it to `m`.** -/
theorem sum_complement {front back : List ℕ} (hfront : ∀ w ∈ front, w ≤ m)
    (hback : ∀ w ∈ back, w ≤ m) :
    sum m (front ++ (m - sum m (front ++ 0 :: back)) :: back) = m := by
  have hwords : ∀ {x}, x ≤ m → ∀ w ∈ front ++ x :: back, w ≤ m := by
    intro x hx w hw
    rcases List.mem_append.mp hw with hw | hw
    · exact hfront w hw
    · rcases List.mem_cons.mp hw with rfl | hw
      · exact hx
      · exact hback w hw
  have hle : sum m (front ++ 0 :: back) ≤ m := sum_le (hwords (Nat.zero_le m))
  rw [sum_eq_norm (hwords (Nat.sub_le m _))]
  generalize hs : sum m (front ++ 0 :: back) = s at hle ⊢
  have hnorm : norm m (front.sum + back.sum) = s := by
    rw [← hs, sum_eq_norm (hwords (Nat.zero_le m))]
    simp
  calc norm m (front ++ (m - s) :: back).sum
      = norm m (front.sum + back.sum + (m - s)) := by
        rw [List.sum_append, List.sum_cons]
        congr 1
        omega
    _ = norm m (s + (m - s)) := by rw [← norm_norm_add, hnorm]
    _ = m := by rw [Nat.add_sub_cancel' hle, norm_of_le (Nat.le_refl m)]

/-! ### Exchanging digits -/

/-- The word with two digits to the base `b`, exchanged. -/
def swapDigits (b w : ℕ) : ℕ := b * (w % b) + w / b

variable {b : ℕ}

/-- **To exchange the digits is to multiply by the base.** -/
theorem swapDigits_eq_norm (hb : b * b = m + 1) {w : ℕ} (hw : w ≤ m) :
    swapDigits b w = norm m (b * w) := by
  have hpos : 0 < b := Nat.pos_of_ne_zero fun h => by rw [h, Nat.zero_mul] at hb; omega
  have hhigh : w / b < b := Nat.div_lt_of_lt_mul (by omega)
  have hlow : w % b < b := Nat.mod_lt w hpos
  have hw' := Nat.div_add_mod w b
  have hle : b * (w % b) + b ≤ b * b := by
    rw [← Nat.mul_succ]
    exact Nat.mul_le_mul_left b hlow
  refine eq_norm (k := w / b) (by unfold swapDigits; omega) ?_ ?_
  · -- the high digit is multiplied by `b * b`, which is one more than `m`
    have hmul : b * w = b * b * (w / b) + b * (w % b) := by
      conv_lhs => rw [← hw', Nat.mul_add, ← Nat.mul_assoc]
    rw [hmul, hb, swapDigits, Nat.add_mul, Nat.one_mul, Nat.mul_comm m]
    omega
  · intro hzero
    unfold swapDigits at hzero
    obtain ⟨hmul, hdiv⟩ := Nat.add_eq_zero_iff.mp hzero
    have hmod : w % b = 0 := (Nat.mul_eq_zero.mp hmul).resolve_left (by omega)
    rw [← hw', hdiv, hmod, Nat.mul_zero, Nat.mul_zero]

theorem swapDigits_le (hb : b * b = m + 1) {w : ℕ} (hw : w ≤ m) : swapDigits b w ≤ m := by
  have hpos : 0 < b := Nat.pos_of_ne_zero fun h => by rw [h, Nat.zero_mul] at hb; omega
  have hhigh : w / b < b := Nat.div_lt_of_lt_mul (by omega)
  have hle : b * (w % b) + b ≤ b * b := by
    rw [← Nat.mul_succ]
    exact Nat.mul_le_mul_left b (Nat.mod_lt w hpos)
  unfold swapDigits
  omega

/-- Addition commutes with exchanging digits. -/
theorem add_swapDigits (hb : b * b = m + 1) {v w : ℕ} (hv : v ≤ m) (hw : w ≤ m) :
    add m (swapDigits b v) (swapDigits b w) = swapDigits b (add m v w) :=
  calc add m (swapDigits b v) (swapDigits b w)
      = norm m (swapDigits b v + swapDigits b w) :=
        add_eq_norm (swapDigits_le hb hv) (swapDigits_le hb hw)
    _ = norm m (norm m (b * v) + norm m (b * w)) := by
        rw [swapDigits_eq_norm hb hv, swapDigits_eq_norm hb hw]
    _ = norm m (b * (v + w)) := by
        rw [norm_norm_add, Nat.add_comm, norm_norm_add, Nat.add_comm, ← Nat.mul_add]
    _ = norm m (b * add m v w) := by rw [add_eq_norm hv hw, norm_mul_norm]
    _ = swapDigits b (add m v w) := (swapDigits_eq_norm hb (add_le hv hw)).symm

theorem foldl_add_swapDigits (hb : b * b = m + 1) : ∀ {words : List ℕ} {a : ℕ}, a ≤ m →
    (∀ w ∈ words, w ≤ m) →
      (words.map (swapDigits b)).foldl (add m) (swapDigits b a) =
        swapDigits b (words.foldl (add m) a)
  | [], _, _, _ => rfl
  | w :: words, a, ha, hwords => by
    have hw : w ≤ m := hwords w List.mem_cons_self
    rw [List.map_cons, List.foldl_cons, List.foldl_cons, add_swapDigits hb ha hw]
    exact foldl_add_swapDigits hb (add_le ha hw) fun v hv => hwords v (List.mem_cons_of_mem w hv)

/-- **Sums commute with exchanging the digits of every word.** -/
theorem sum_map_swapDigits (hb : b * b = m + 1) {words : List ℕ} (hwords : ∀ w ∈ words, w ≤ m) :
    sum m (words.map (swapDigits b)) = swapDigits b (sum m words) := by
  have hzero : swapDigits b 0 = 0 := by
    rw [swapDigits, Nat.zero_mod, Nat.zero_div, Nat.mul_zero]
  have hfold := foldl_add_swapDigits hb (Nat.zero_le m) hwords
  rw [hzero] at hfold
  exact hfold

end OnesComplement
