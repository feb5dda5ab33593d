import Mathlib.Algebra.Order.Ring.Int
import Mathlib.Tactic.Linarith

namespace Lib
set_option autoImplicit true

/-- What a linear schedule has released by a moment, in whole units. -/
def released (total : ℤ) (start finish now : ℕ) : ℤ :=
  if now < start then 0
  else if finish ≤ now then total
  else ((now - start : ℕ) : ℤ) * total / ((finish - start : ℕ) : ℤ)

section
variable {total : ℤ} (ht : 0 ≤ total) (start finish : ℕ)
include ht

theorem released_nonneg (now : ℕ) : 0 ≤ released total start finish now := by
  unfold released
  split
  · exact le_rfl
  · split
    · exact ht
    · exact Int.ediv_nonneg (mul_nonneg (Int.natCast_nonneg _) ht) (Int.natCast_nonneg _)

theorem released_le (now : ℕ) : released total start finish now ≤ total := by
  unfold released
  split
  · exact ht
  · split
    · exact le_rfl
    · rename_i hs hf
      have hlt : now - start < finish - start := Nat.sub_lt_sub_right (not_lt.mp hs) (not_le.mp hf)
      have hpos : (0 : ℤ) < ((finish - start : ℕ) : ℤ) := by omega
      have hle : ((now - start : ℕ) : ℤ) ≤ ((finish - start : ℕ) : ℤ) := by omega
      apply Int.ediv_le_of_le_mul hpos
      rw [mul_comm total]
      exact mul_le_mul_of_nonneg_right hle ht

/-- Nothing that was released is taken back. -/
theorem released_mono (h : now ≤ now') :
    released total start finish now ≤ released total start finish now' := by
  by_cases hs : now < start
  · have hz : released total start finish now = 0 := if_pos hs
    exact hz ▸ released_nonneg ht start finish now'
  · by_cases hf : finish ≤ now'
    · have hs' : ¬ now' < start := fun hlt => hs (h.trans_lt hlt)
      have hall : released total start finish now' = total := by
        rw [released, if_neg hs', if_pos hf]
      rw [hall]
      exact released_le ht start finish now
    · have hs' : ¬ now' < start := fun hlt => hs (h.trans_lt hlt)
      have hf' : ¬ finish ≤ now := fun hle => hf (hle.trans h)
      rw [released, released, if_neg hs, if_neg hs', if_neg hf, if_neg hf']
      have hpos : (0 : ℤ) < ((finish - start : ℕ) : ℤ) := by omega
      have hle : ((now - start : ℕ) : ℤ) ≤ ((now' - start : ℕ) : ℤ) := by omega
      exact Int.ediv_le_ediv hpos (mul_le_mul_of_nonneg_right hle ht)

end

end Lib
