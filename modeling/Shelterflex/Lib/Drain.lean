import Mathlib.Algebra.Order.BigOperators.Group.Finset
import Mathlib.Algebra.Order.Group.Defs
import Mathlib.Tactic.Abel

namespace Lib
set_option autoImplicit true

section
variable {α : Type} [AddCommGroup α] [LinearOrder α]

/-- What is left of a demand after the first `k` of a queue have each given what they can. -/
def remaining (a : ℕ → α) (n : α) : ℕ → α
  | 0 => n
  | k + 1 => remaining a n k - min (remaining a n k) (a k)

/-- What the demand draws from one of the queue. -/
def drawn (a : ℕ → α) (n : α) (i : ℕ) : α := min (remaining a n i) (a i)

theorem remaining_succ (a : ℕ → α) (n : α) (k : ℕ) :
    remaining a n (k + 1) = remaining a n k - drawn a n k := rfl

theorem drawn_le (a : ℕ → α) (n : α) (i : ℕ) : drawn a n i ≤ a i := min_le_right _ _

theorem sum_drawn (a : ℕ → α) (n : α) (k : ℕ) :
    ∑ i ∈ Finset.range k, drawn a n i = n - remaining a n k := by
  induction k with
  | zero => rw [Finset.sum_range_zero, remaining, sub_self]
  | succ k ih =>
    rw [Finset.sum_range_succ, ih, remaining_succ]
    abel

variable [IsOrderedAddMonoid α] {a : ℕ → α} {n : α}

theorem remaining_nonneg (hn : 0 ≤ n) (k : ℕ) : 0 ≤ remaining a n k := by
  cases k with
  | zero => exact hn
  | succ k => exact sub_nonneg.mpr (min_le_left _ _)

theorem drawn_eq_zero (hn : 0 ≤ n) (ha : a i = 0) : drawn a n i = 0 := by
  rw [drawn, ha]
  exact min_eq_right (remaining_nonneg hn i)

section
variable (ha : ∀ i, 0 ≤ a i)
include ha

theorem drawn_nonneg (hn : 0 ≤ n) (i : ℕ) : 0 ≤ drawn a n i := le_min (remaining_nonneg hn i) (ha i)

theorem remaining_anti (hn : 0 ≤ n) (hij : i ≤ j) : remaining a n j ≤ remaining a n i := by
  induction hij with
  | refl => exact le_rfl
  | step _ ih => exact (sub_le_self _ (drawn_nonneg ha hn _)).trans ih

theorem drawn_eq (hn : 0 ≤ n) (hij : i < j) (hj : 0 < remaining a n j) : drawn a n i = a i := by
  have hnext : 0 < remaining a n i - drawn a n i := hj.trans_le (remaining_anti ha hn hij)
  have hne : drawn a n i ≠ remaining a n i := fun he => (sub_pos.mp hnext).ne he
  exact min_eq_right (le_of_not_ge fun hle => hne (min_eq_left hle))

/-- The queue is drawn on in order. -/
theorem drawn_in_order (hn : 0 ≤ n) (hij : i < j) (hj : 0 < drawn a n j) : drawn a n i = a i :=
  drawn_eq ha hn hij (hj.trans_le (min_le_left _ _))

theorem remaining_eq_zero (hn : 0 ≤ n) (hle : n ≤ ∑ i ∈ Finset.range k, a i) :
    remaining a n k = 0 := by
  refine le_antisymm (le_of_not_gt fun hpos => ?_) (remaining_nonneg hn k)
  have hall : ∑ i ∈ Finset.range k, drawn a n i = ∑ i ∈ Finset.range k, a i :=
    Finset.sum_congr rfl fun i hi => drawn_eq ha hn (Finset.mem_range.mp hi) hpos
  rw [sum_drawn] at hall
  exact absurd hle (not_le.mpr (hall ▸ sub_lt_self n hpos))

end

end

end Lib
