import Mathlib.Algebra.BigOperators.Finprod
import Mathlib.Algebra.Order.BigOperators.Group.Finset
import Mathlib.Algebra.Order.Field.Basic
import Mathlib.Data.Int.Cast.Lemmas
import Mathlib.Data.Rat.Cast.Order
import Mathlib.Tactic.FieldSimp
import Mathlib.Tactic.Linarith

namespace Lib
set_option autoImplicit true

/-- An error that its bound covers, strictly so unless the bound is zero. -/
structure Within [Zero K] [LE K] [LT K] (error bound : K) : Prop where
  nonneg : 0 ≤ error
  le : error ≤ bound
  lt : 0 < bound → error < bound

theorem Within.zero [Zero K] [Preorder K] : Within (0 : K) 0 := ⟨le_rfl, le_rfl, id⟩

section
variable [Field K] [LinearOrder K] [IsStrictOrderedRing K]

theorem Within.add {d e b c : K} (h : Within d b) (h' : Within e c) :
    Within (d + e) (b + c) where
  nonneg := add_nonneg h.nonneg h'.nonneg
  le := add_le_add h.le h'.le
  lt := by
    intro hpos
    rcases (h.nonneg.trans h.le).eq_or_lt with hb | hb
    · rw [← hb, zero_add] at hpos
      exact add_lt_add_of_le_of_lt h.le (h'.lt hpos)
    · exact add_lt_add_of_lt_of_le (h.lt hb) h'.le

theorem Within.mul {d b c : K} (h : Within d b) (hc : 0 ≤ c) : Within (c * d) (c * b) where
  nonneg := mul_nonneg hc h.nonneg
  le := mul_le_mul_of_nonneg_left h.le hc
  lt := by
    intro hpos
    rcases hc.eq_or_lt with he | hc
    · rw [← he, zero_mul] at hpos
      exact absurd hpos (lt_irrefl 0)
    · exact mul_lt_mul_of_pos_left (h.lt (pos_of_mul_pos_right hpos hc.le)) hc

theorem Within.remainder {s : ℤ} (hs : 0 < s) (x : ℤ) : Within ((x % s : ℤ) / s : K) 1 := by
  have hs' : (0 : K) < s := Int.cast_pos.mpr hs
  have hlt : ((x % s : ℤ) : K) / s < 1 := by
    rw [div_lt_one hs']
    exact Int.cast_lt.mpr (Int.emod_lt_of_pos x hs)
  have hn : (0 : K) ≤ (x % s : ℤ) := Int.cast_nonneg (Int.emod_nonneg x hs.ne')
  exact ⟨div_nonneg hn hs'.le, hlt.le, fun _ => hlt⟩

theorem div_sub_ediv {s : ℤ} (hs : 0 < s) (x : ℤ) :
    (x : K) / s - (x / s : ℤ) = (x % s : ℤ) / s := by
  have hs' : (s : K) ≠ 0 := (Int.cast_pos.mpr hs).ne'
  have he : (x : K) = s * (x / s : ℤ) + (x % s : ℤ) := by
    rw [← Int.cast_mul, ← Int.cast_add, Int.mul_ediv_add_emod]
  rw [sub_eq_iff_eq_add', div_eq_iff hs', add_mul, div_mul_cancel₀ _ hs', mul_comm, ← he]

end

theorem add_ediv_of_parts {s : ℤ} (hs : s ≠ 0) (x k c : ℤ) :
    (x + (k * s + c)) / s = x / s + k + (x % s + c) / s := by
  have he : x + (k * s + c) = x % s + c + (x / s + k) * s := by
    have hx := Int.mul_ediv_add_emod x s
    linarith
  rw [he, Int.add_mul_ediv_right _ _ hs, add_comm]

/-- Rounding every part of a finite sum down loses what rounding the whole sum loses, or more. -/
theorem finsum_ediv_le {f : κ → ℤ} (hf : f.support.Finite) {s : ℤ} (hs : 0 < s) :
    ∑ᶠ k, f k / s ≤ (∑ᶠ k, f k) / s := by
  have hsub : (fun k => f k / s).support ⊆ f.support := by
    intro k hk hz
    exact hk ((congrArg (· / s) hz).trans (Int.zero_ediv s))
  apply Int.le_ediv_of_mul_le hs
  rw [finsum_mul]
  apply finsum_le_finsum' _ hf fun k => Int.ediv_mul_le _ hs.ne'
  exact (hf.subset hsub).subset (Function.support_mul_subset_left _ _)

theorem list_ediv_bounds {s : ℤ} (hs : 0 < s) {l : List ℤ} (hl : l ≠ []) :
    s * (l.map (· / s)).sum ≤ l.sum ∧ l.sum < s * ((l.map (· / s)).sum + l.length) := by
  have hsplit (l : List ℤ) : s * (l.map (· / s)).sum + (l.map (· % s)).sum = l.sum := by
    induction l with
    | nil => simp only [List.map_nil, List.sum_nil, mul_zero, add_zero]
    | cons x l ih =>
      have hx := Int.mul_ediv_add_emod x s
      simp only [List.map_cons, List.sum_cons, mul_add]
      omega
  have hnonneg : 0 ≤ (l.map (· % s)).sum := by
    apply List.sum_nonneg
    intro x hx
    obtain ⟨y, _, rfl⟩ := List.mem_map.mp hx
    exact Int.emod_nonneg y hs.ne'
  have hlt : (l.map (· % s)).sum < (l.map fun _ => s).sum := by
    refine List.sum_lt_sum_of_ne_nil hl _ _ fun y _ => ?_
    exact Int.emod_lt_of_pos y hs
  rw [List.map_const', List.sum_replicate, nsmul_eq_mul] at hlt
  have h := hsplit l
  rw [mul_add, mul_comm s (l.length : ℤ)]
  constructor <;> omega

end Lib
