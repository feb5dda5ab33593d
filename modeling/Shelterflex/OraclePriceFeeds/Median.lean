import Shelterflex.Lib.Sorting
import Shelterflex.OraclePriceFeeds.Model

/-! The median is the middle of the sorted prices. -/

namespace Shelterflex.OraclePriceFeeds
open Lib
set_option autoImplicit true

theorem le_i128Max (h : InI128 v) : v ≤ i128Max := Int.le_sub_one_of_lt h.2

/-- What the scan has found among the first positions. -/
structure Scanned (values : List Int) (used : List Bool) (k : Nat) (m : Int) (idx : Nat) :
    Prop where
  least : ∀ (j : Nat) v, j < k → used[j]? = some false → values[j]? = some v → m ≤ v
  found : m = i128Max ∨ m < i128Max ∧ values[idx]? = some m ∧ used[idx]? = some false

theorem scanStep_spec (hv : values[k]? = some v) (hu : used[k]? = some u) (hmax : v ≤ i128Max)
    (h : Scanned values used k m idx) : ∃ m' idx',
      scanStep values used (m, idx) k = .ok (m', idx') ∧ Scanned values used (k + 1) m' idx' := by
  rw [scanStep, bind_of_ok (expect_ok.mpr hu)]
  cases u with
  | true =>
    refine ⟨m, idx, rfl, fun j w hj hused hw => ?_, h.found⟩
    rcases Nat.lt_succ_iff_lt_or_eq.mp hj with hj | rfl
    · exact h.least j w hj hused hw
    · cases hu.symm.trans hused
  | false =>
    rw [if_pos rfl, bind_of_ok (expect_ok.mpr hv)]
    by_cases hlt : v < m
    · refine ⟨v, k, congrArg Except.ok (if_pos hlt), fun j w hj hused hw => ?_, ?_⟩
      · rcases Nat.lt_succ_iff_lt_or_eq.mp hj with hj | rfl
        · exact hlt.le.trans (h.least j w hj hused hw)
        · cases hv.symm.trans hw
          exact le_rfl
      · rcases hmax.eq_or_lt with heq | hlt'
        · exact .inl heq
        · exact .inr ⟨hlt', hv, hu⟩
    · refine ⟨m, idx, congrArg Except.ok (if_neg hlt), fun j w hj hused hw => ?_, h.found⟩
      rcases Nat.lt_succ_iff_lt_or_eq.mp hj with hj | rfl
      · exact h.least j w hj hused hw
      · cases hv.symm.trans hw
        exact not_lt.mp hlt

section
variable {values : List Int} (hmax : ∀ v ∈ values, v ≤ i128Max)
include hmax

theorem scanMin_spec (hlen : used.length = values.length) : ∃ m idx,
    scanMin values used = .ok (m, idx) ∧ Scanned values used values.length m idx := by
  have hscan (k : Nat) (hk : k ≤ values.length) : ∃ m idx,
      (List.range k).foldlM (scanStep values used) (i128Max, 0) = .ok (m, idx) ∧
        Scanned values used k m idx := by
    induction k with
    | zero => exact ⟨_, _, rfl, nofun, .inl rfl⟩
    | succ k ih =>
      obtain ⟨m, idx, hok, hs⟩ := ih (Nat.le_of_succ_le hk)
      have hv := List.getElem?_eq_getElem (Nat.lt_of_succ_le hk)
      have hu := List.getElem?_eq_getElem (hlen.symm ▸ Nat.lt_of_succ_le hk)
      obtain ⟨m', idx', hstep, hs'⟩ := scanStep_spec hv hu (hmax _ (List.getElem_mem _)) hs
      exact ⟨m', idx', foldlM_range_succ.mpr ⟨_, hok, hstep⟩, hs'⟩
  exact hscan values.length le_rfl

/-- The values taken so far are the first of the sorted list. -/
structure Sorting (values : List Int) (k : Nat) (used : List Bool) (sorted : List Int) : Prop where
  length : used.length = values.length
  taken : sorted = values.mergeSort.take k
  left : SameBelow i128Max (values.mergeSort.drop k) (unused values used)

omit hmax in
theorem mergeSort_sorted (values : List Int) : values.mergeSort.Pairwise (· ≤ ·) := by
  have h : (values.mergeSort fun a b => decide (a ≤ b)).Pairwise fun a b => decide (a ≤ b) = true :=
    List.pairwise_mergeSort (by simpa using fun a b c => le_trans) (by simpa using le_total) values
  simpa using h

theorem Sorting.step (h : Sorting values k used sorted) (hk : k < values.length) : ∃ m idx,
    scanMin values used = .ok (m, idx) ∧
      Sorting values (k + 1) (used.set idx true) (sorted ++ [m]) := by
  obtain ⟨m, idx, hok, hscan⟩ := scanMin_spec hmax h.length
  have hlen : k < values.mergeSort.length := by rwa [List.length_mergeSort]
  have hleft := h.left
  have hsorted := (mergeSort_sorted values).sublist (List.drop_sublist k _)
  rw [List.drop_eq_getElem_cons hlen] at hleft hsorted
  have hleast : ∀ v ∈ unused values used, m ≤ v := by
    intro v hv
    obtain ⟨j, hj, hu⟩ := mem_unused.mp hv
    exact hscan.least j v (List.getElem?_eq_some_iff.mp hj).1 hu hj
  have hnext : values.mergeSort[k] = m ∧
      SameBelow i128Max (values.mergeSort.drop (k + 1)) (unused values (used.set idx true)) := by
    rcases hscan.found with rfl | ⟨hlt, hv, hu⟩
    · have hle := hmax _ (List.mem_mergeSort.mp (List.getElem_mem hlen))
      exact hleft.exhausted hle hleast unused_set_subset
    · exact hleft.least hsorted hlt (unused_set hv hu) hleast
  refine ⟨m, idx, hok, ⟨by rw [List.length_set, h.length], ?_, hnext.2⟩⟩
  rw [h.taken, ← hnext.1, List.take_concat_get']

/-- The selection sort sorts. -/
theorem sortValues_eq : ∃ used, sortValues values = .ok (used, values.mergeSort) := by
  have hsort (k : Nat) (hk : k ≤ values.length) : ∃ used sorted,
      (List.range k).foldlM (sortStep values) (.replicate values.length false, []) =
        .ok (used, sorted) ∧ Sorting values k used sorted := by
    induction k with
    | zero =>
      refine ⟨_, _, rfl, List.length_replicate, rfl, ?_⟩
      rw [unused_replicate, List.drop_zero]
      exact (List.mergeSort_perm values _).filter _
    | succ k ih =>
      obtain ⟨used, sorted, hok, hs⟩ := ih (Nat.le_of_succ_le hk)
      obtain ⟨m, idx, hscan, hs'⟩ := hs.step hmax (Nat.lt_of_succ_le hk)
      refine ⟨_, _, foldlM_range_succ.mpr ⟨_, hok, ?_⟩, hs'⟩
      exact bind_of_ok hscan _
  obtain ⟨used, sorted, hok, hs⟩ := hsort values.length le_rfl
  refine ⟨used, ?_⟩
  rw [sortValues, hok, hs.taken, List.take_of_length_le (by rw [List.length_mergeSort])]

theorem median_eq : median values = middle values.length values.mergeSort := by
  obtain ⟨used, hsort⟩ := sortValues_eq hmax
  exact bind_of_ok hsort _

end

theorem i128Div_two (h : InI128 x) : ∃ q, (i128Div x 2 : Result Int) = .ok q := by
  refine ⟨_, i128Div_ok.mpr ⟨two_ne_zero, ?_, rfl⟩⟩
  have hdiv : x.tdiv 2 = x / 2 + if 0 ≤ x ∨ 2 ∣ x then 0 else 1 := Int.tdiv_eq_ediv
  obtain ⟨hl, hu⟩ := h
  rw [hdiv]
  constructor <;> split <;> omega

/-- The two middle values have a sum in range. -/
def MiddleFits (sorted : List Int) : Prop :=
  ∃ low high, sorted[sorted.length / 2 - 1]? = some low ∧ sorted[sorted.length / 2]? = some high ∧
    InI128 (low + high)

/-- There is no middle of no values, and none of an even number of them when the sum of the middle
ones is out of range. -/
theorem middle_ok : (∃ m, middle sorted.length sorted = .ok m) ↔
    sorted.length % 2 = 1 ∨ MiddleFits sorted := by
  rw [middle]
  by_cases hodd : sorted.length % 2 = 1
  · have hmid : sorted.length / 2 < sorted.length := by omega
    rw [if_pos hodd]
    exact iff_of_true ⟨_, expect_ok.mpr (List.getElem?_eq_getElem hmid)⟩ (.inl hodd)
  · rw [if_neg hodd, or_iff_right hodd]
    simp only [bind_ok, u32Sub_ok, expect_ok, i128Add_ok]
    constructor
    · rintro ⟨_, _, ⟨_, rfl⟩, low, hlow, high, hhigh, _, ⟨hfit, _⟩, _⟩
      exact ⟨low, high, hlow, hhigh, hfit⟩
    · rintro ⟨low, high, hlow, hhigh, hfit⟩
      have hlt := (List.getElem?_eq_some_iff.mp hhigh).1
      obtain ⟨q, hq⟩ := i128Div_two hfit
      exact ⟨q, _, ⟨by omega, rfl⟩, low, hlow, high, hhigh, _, ⟨hfit, rfl⟩, hq⟩

end Shelterflex.OraclePriceFeeds
