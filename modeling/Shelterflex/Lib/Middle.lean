import Mathlib.Order.Basic
import Mathlib.Order.Defs.LinearOrder
import Mathlib.Data.List.Sort

/-! The middle positions of a sorted list. -/

namespace Lib
set_option autoImplicit true

theorem countP_add_le_length {l : List α} {p q : α → Bool} (h : ∀ w ∈ l, p w = true → q w = false) :
    l.countP p + l.countP q ≤ l.length := by
  have hle : l.countP q ≤ l.countP fun w => !p w := by
    apply List.countP_mono_left
    intro w hw hq
    cases hp : p w with
    | false => rfl
    | true => exact absurd hq (by simp [h w hw hp])
  have hlen := List.length_eq_countP_add_countP p (l := l)
  simp only [Bool.not_eq_true, Bool.decide_eq_false] at hlen
  omega

section
variable [LinearOrder α] {l : List α}

theorem lt_countP_le (hs : l.Pairwise (· ≤ ·)) (hv : l[i]? = some v) :
    i < l.countP fun w => w ≤ v := by
  induction l generalizing i with
  | nil => cases hv
  | cons w l ih =>
    cases i with
    | zero =>
      cases hv
      rw [List.countP_cons_of_pos (by simp)]
      exact Nat.zero_lt_succ _
    | succ i =>
      have hle : w ≤ v := List.rel_of_pairwise_cons hs (List.mem_of_getElem? hv)
      rw [List.countP_cons_of_pos (by simpa using hle)]
      exact Nat.succ_lt_succ (ih hs.of_cons hv)

theorem length_le_countP_ge (hs : l.Pairwise (· ≤ ·)) (hv : l[i]? = some v) :
    l.length ≤ i + l.countP fun w => v ≤ w := by
  induction l generalizing i with
  | nil => cases hv
  | cons w l ih =>
    cases i with
    | zero =>
      cases hv
      have hall : (v :: l).countP (fun w => v ≤ w) = (v :: l).length := by
        apply List.countP_eq_length.mpr
        intro w hw
        rcases List.mem_cons.mp hw with rfl | hw
        · simp
        · simpa using List.rel_of_pairwise_cons hs hw
      rw [hall, Nat.zero_add]
    | succ i =>
      have hle := ih hs.of_cons hv
      have hmono : l.countP (fun w => v ≤ w) ≤ (w :: l).countP fun w => v ≤ w :=
        (List.sublist_cons_self w l).countP_le
      rw [List.length_cons]
      omega

/-- A value at a middle position lies in every range that more than half of the list lies in. -/
theorem middle_mem_of_majority (hs : l.Pairwise (· ≤ ·)) (hv : l[i]? = some v)
    (hlow : 2 * i ≤ l.length) (hhigh : l.length ≤ 2 * (i + 1))
    (hmaj : l.length < 2 * l.countP fun w => lo ≤ w ∧ w ≤ hi) : lo ≤ v ∧ v ≤ hi := by
  constructor
  · by_contra hlt
    have hcount := lt_countP_le hs hv
    have hdisj := countP_add_le_length (l := l) (p := fun w => w ≤ v)
      (q := fun w => lo ≤ w ∧ w ≤ hi) (by
        intro w _ hw
        have hw' : w < lo := (of_decide_eq_true hw).trans_lt (not_le.mp hlt)
        simp [not_le.mpr hw'])
    omega
  · by_contra hlt
    have hcount := length_le_countP_ge hs hv
    have hdisj := countP_add_le_length (l := l) (p := fun w => v ≤ w)
      (q := fun w => lo ≤ w ∧ w ≤ hi) (by
        intro w _ hw
        have hw' : hi < w := (not_le.mp hlt).trans_le (of_decide_eq_true hw)
        simp [not_le.mpr hw'])
    omega

end

end Lib
