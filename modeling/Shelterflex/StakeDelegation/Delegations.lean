import Shelterflex.StakeDelegation.Model

namespace Shelterflex.StakeDelegation
open Lib
set_option autoImplicit true

/-! Lists of delegations of one delegator -/

def amountTo (d : Address) (l : List Delegation) : Int :=
  (l.map fun e => if e.delegatee = d then e.amount else 0).sum

def totalAmount (l : List Delegation) : Int := (l.map Delegation.amount).sum

/-- At most one delegation for each delegatee, and all of them positive. -/
structure Tidy (l : List Delegation) : Prop where
  nodup : (l.map Delegation.delegatee).Nodup
  positive : ∀ e ∈ l, 0 < e.amount

/-- Give every delegation a new amount, and drop those left with nothing. -/
def rescale (f : Delegation → Int) (l : List Delegation) : List Delegation :=
  l.filterMap fun e => if 0 < f e then some { e with amount := f e } else none

theorem rescale_cons (f : Delegation → Int) (e : Delegation) (l : List Delegation) :
    rescale f (e :: l) = (if 0 < f e then [{ e with amount := f e }] else []) ++ rescale f l := by
  simp only [rescale, List.filterMap_cons]
  split <;> rename_i h <;> split at h <;> simp_all

theorem rescale_singleton (f : Delegation → Int) (e : Delegation) :
    rescale f [e] = if 0 < f e then [{ e with amount := f e }] else [] := by
  rw [rescale_cons]
  exact List.append_nil _

theorem rescale_append (f : Delegation → Int) (l l' : List Delegation) :
    rescale f (l ++ l') = rescale f l ++ rescale f l' :=
  List.filterMap_append

theorem rescale_delegatees (f : Delegation → Int) (l : List Delegation) :
    ((rescale f l).map Delegation.delegatee).Sublist (l.map Delegation.delegatee) := by
  induction l with
  | nil => exact .slnil
  | cons e l ih =>
    rw [rescale_cons]
    split
    · exact ih.cons_cons e.delegatee
    · exact ih.cons e.delegatee

theorem rescale_tidy (h : Tidy l) (f : Delegation → Int) : Tidy (rescale f l) where
  nodup := h.nodup.sublist (rescale_delegatees f l)
  positive e he := by
    obtain ⟨x, _, hx⟩ := List.mem_filterMap.mp he
    split at hx
    · rename_i hp
      cases hx
      exact hp
    · cases hx

theorem rescale_id (h : ∀ e ∈ l, f e = e.amount ∧ 0 < e.amount) : rescale f l = l := by
  induction l with
  | nil => rfl
  | cons e l ih =>
    obtain ⟨he, hp⟩ := h e List.mem_cons_self
    rw [rescale_cons, ih fun x hx => h x (List.mem_cons_of_mem _ hx), if_pos (he ▸ hp), he]
    rfl

theorem amountTo_cons (d : Address) (e : Delegation) (l : List Delegation) :
    amountTo d (e :: l) = (if e.delegatee = d then e.amount else 0) + amountTo d l := by
  simp only [amountTo, List.map_cons, List.sum_cons]

theorem amountTo_append (d : Address) (l l' : List Delegation) :
    amountTo d (l ++ l') = amountTo d l + amountTo d l' := by
  simp only [amountTo, List.map_append, List.sum_append]

theorem amountTo_nil (d : Address) : amountTo d [] = 0 := rfl

theorem amountTo_singleton (d : Address) (e : Delegation) :
    amountTo d [e] = if e.delegatee = d then e.amount else 0 := add_zero _

theorem Tidy.tail (h : Tidy (e :: l)) : Tidy l :=
  ⟨(List.nodup_cons.mp h.nodup).2, fun x hx => h.positive x (List.mem_cons_of_mem _ hx)⟩

theorem amountTo_absent (h : d ∉ l.map Delegation.delegatee) : amountTo d l = 0 := by
  induction l with
  | nil => rfl
  | cons e l ih =>
    simp only [List.map_cons, List.mem_cons, not_or] at h
    rw [amountTo_cons, if_neg fun he => h.1 he.symm, ih h.2, add_zero]

theorem Tidy.amountTo_mem (h : Tidy l) (he : e ∈ l) : amountTo e.delegatee l = e.amount := by
  induction l with
  | nil => cases he
  | cons x l ih =>
    have hn := (List.nodup_cons.mp h.nodup).1
    rw [amountTo_cons]
    rcases List.mem_cons.mp he with rfl | he
    · rw [if_pos rfl, amountTo_absent hn, add_zero]
    · have hx : x.delegatee ≠ e.delegatee := fun hx => hn (hx ▸ List.mem_map_of_mem he)
      rw [if_neg hx, ih h.tail he, zero_add]

theorem Tidy.amountTo_pos_iff (h : Tidy l) :
    0 < amountTo d l ↔ d ∈ l.map Delegation.delegatee := by
  constructor
  · intro hp
    by_contra hn
    rw [amountTo_absent hn] at hp
    exact lt_irrefl 0 hp
  · intro hd
    obtain ⟨e, he, rfl⟩ := List.mem_map.mp hd
    rw [h.amountTo_mem he]
    exact h.positive e he

theorem Tidy.amountTo_nonneg (h : Tidy l) (d : Address) : 0 ≤ amountTo d l := by
  by_cases hd : d ∈ l.map Delegation.delegatee
  · exact (h.amountTo_pos_iff.mpr hd).le
  · exact (amountTo_absent hd).ge

theorem amountTo_rescale_cons_of_ne (h : e.delegatee ≠ d) (f : Delegation → Int)
    (l : List Delegation) : amountTo d (rescale f (e :: l)) = amountTo d (rescale f l) := by
  rw [rescale_cons, amountTo_append]
  split
  · rw [amountTo_singleton, if_neg h, zero_add]
  · exact zero_add _

theorem amountTo_rescale (h : Tidy l) (f : Delegation → Int) (he : e ∈ l) :
    amountTo e.delegatee (rescale f l) = max (f e) 0 := by
  induction l with
  | nil => cases he
  | cons x l ih =>
    have hn := (List.nodup_cons.mp h.nodup).1
    rcases List.mem_cons.mp he with rfl | he
    · have hz : amountTo e.delegatee (rescale f l) = 0 :=
        amountTo_absent fun hd => hn ((rescale_delegatees f l).subset hd)
      rw [rescale_cons, amountTo_append, hz, add_zero]
      split
      · rename_i hp
        rw [max_eq_left hp.le, amountTo_singleton, if_pos rfl]
      · rename_i hp
        rw [max_eq_right (not_lt.mp hp), amountTo_nil]
    · have hx : x.delegatee ≠ e.delegatee := fun hx => hn (hx ▸ List.mem_map_of_mem he)
      rw [amountTo_rescale_cons_of_ne hx, ih h.tail he]

theorem amountTo_rescale_absent (f : Delegation → Int) (h : d ∉ l.map Delegation.delegatee) :
    amountTo d (rescale f l) = 0 :=
  amountTo_absent fun hd => h ((rescale_delegatees f l).subset hd)

theorem amountTo_rescale_le (h : Tidy l) (hf : ∀ e ∈ l, f e ≤ e.amount) (d : Address) :
    amountTo d (rescale f l) ≤ amountTo d l := by
  by_cases hd : d ∈ l.map Delegation.delegatee
  · obtain ⟨e, he, rfl⟩ := List.mem_map.mp hd
    rw [amountTo_rescale h f he, h.amountTo_mem he]
    exact max_le (hf e he) (h.positive e he).le
  · rw [amountTo_rescale_absent f hd, amountTo_absent hd]

/-- A proportional part is at most the whole. -/
theorem part_le {x : Int} (hx : 0 ≤ x) (hn : n ≤ t) (ht : 0 < t) : x * n / t ≤ x := by
  have hq := Int.ediv_le_ediv ht (mul_le_mul_of_nonneg_left hn hx)
  rwa [Int.mul_ediv_cancel _ ht.ne'] at hq

/-- Change the amount delegated to one delegatee. -/
def setAmount (d : Address) (g : Int → Int) (e : Delegation) : Int :=
  if e.delegatee = d then g e.amount else e.amount

theorem setAmount_of_eq (h : e.delegatee = d) (g : Int → Int) :
    setAmount d g e = g e.amount := if_pos h

theorem setAmount_of_ne (h : e.delegatee ≠ d) (g : Int → Int) : setAmount d g e = e.amount :=
  if_neg h

theorem amountTo_setAmount (h : Tidy l) (hd : d ∈ l.map Delegation.delegatee) (g : Int → Int) :
    amountTo d (rescale (setAmount d g) l) = max (g (amountTo d l)) 0 := by
  obtain ⟨e, he, rfl⟩ := List.mem_map.mp hd
  rw [amountTo_rescale h _ he, h.amountTo_mem he, setAmount, if_pos rfl]

theorem amountTo_setAmount_of_ne (h : Tidy l) (g : Int → Int) (hn : d' ≠ d) :
    amountTo d' (rescale (setAmount d g) l) = amountTo d' l := by
  by_cases hd : d' ∈ l.map Delegation.delegatee
  · obtain ⟨e, he, rfl⟩ := List.mem_map.mp hd
    rw [amountTo_rescale h _ he, h.amountTo_mem he, setAmount, if_neg hn]
    exact max_eq_left (h.positive e he).le
  · rw [amountTo_rescale_absent _ hd, amountTo_absent hd]

theorem rescale_setAmount_absent (h : Tidy l) (g : Int → Int)
    (hd : d ∉ l.map Delegation.delegatee) : rescale (setAmount d g) l = l := by
  apply rescale_id
  intro e he
  have hx : e.delegatee ≠ d := fun hx => hd (hx ▸ List.mem_map_of_mem he)
  exact ⟨if_neg hx, h.positive e he⟩

/-- Dropping a delegatee is setting its amount to nothing. -/
theorem filter_ne (h : Tidy l) (d : Address) :
    l.filter (·.delegatee ≠ d) = rescale (setAmount d fun _ => 0) l := by
  induction l with
  | nil => rfl
  | cons e l ih =>
    have hp := h.positive e List.mem_cons_self
    rw [rescale_cons, ← ih h.tail, List.filter_cons]
    by_cases he : e.delegatee = d
    · rw [setAmount_of_eq he, if_neg (by simp [he]), if_neg (lt_irrefl 0)]
      rfl
    · rw [setAmount_of_ne he, if_pos (by simp [he]), if_pos hp]
      rfl

theorem find_amount (l : List Delegation) (d : Address) (h : Tidy l) :
    ((l.find? (·.delegatee = d)).map Delegation.amount).getD 0 = amountTo d l := by
  cases hf : l.find? (·.delegatee = d) with
  | none =>
    have hn := List.find?_eq_none.mp hf
    refine (amountTo_absent fun hd => ?_).symm
    obtain ⟨e, he, hd⟩ := List.mem_map.mp hd
    exact hn e he (decide_eq_true hd)
  | some e =>
    have he : e.delegatee = d := by simpa using List.find?_some hf
    rw [← he, h.amountTo_mem (List.mem_of_find?_eq_some hf)]
    rfl

theorem rescale_map (h : ∀ e ∈ l, 0 < f e) :
    rescale f l = l.map fun e => { e with amount := f e } := by
  induction l with
  | nil => rfl
  | cons e l ih =>
    rw [rescale_cons, if_pos (h e List.mem_cons_self),
      ih fun x hx => h x (List.mem_cons_of_mem _ hx)]
    rfl

theorem totalAmount_cons (e : Delegation) (l : List Delegation) :
    totalAmount (e :: l) = e.amount + totalAmount l := by
  simp only [totalAmount, List.map_cons, List.sum_cons]

theorem amountTo_finite (l : List Delegation) : (amountTo · l).support.Finite := by
  apply (l.map Delegation.delegatee).finite_toSet.subset
  intro d hd
  by_contra hn
  exact hd (amountTo_absent hn)

theorem totalAmount_eq (l : List Delegation) : totalAmount l = ∑ᶠ d, amountTo d l := by
  induction l with
  | nil => exact finsum_zero.symm
  | cons e l ih =>
    have hf : (fun d => if e.delegatee = d then e.amount else 0).support.Finite := by
      apply (Set.finite_singleton e.delegatee).subset
      intro d hd
      by_contra hn
      exact hd (if_neg fun hx => hn hx.symm)
    have he := finsum_eq_single (fun d => if e.delegatee = d then e.amount else 0) e.delegatee
      fun d hd => if_neg fun hx => hd hx.symm
    simp only [amountTo_cons]
    rw [finsum_add_distrib hf (amountTo_finite l), he, if_pos rfl, totalAmount_cons, ih]

theorem Tidy.amountTo_le (h : Tidy l) (d : Address) : amountTo d l ≤ totalAmount l := by
  rw [totalAmount_eq]
  exact le_finsum (amountTo_finite l) h.amountTo_nonneg d

theorem Tidy.totalAmount_nonneg (h : Tidy l) : 0 ≤ totalAmount l := by
  rw [totalAmount_eq]
  exact finsum_nonneg h.amountTo_nonneg

/-- Lists that agree on all delegatees but one differ in total by the change of that one. -/
theorem totalAmount_change (h : ∀ d', d' ≠ d → amountTo d' l' = amountTo d' l) :
    totalAmount l' = totalAmount l - amountTo d l + amountTo d l' := by
  rw [totalAmount_eq, totalAmount_eq]
  exact finsum_change (amountTo_finite l) d h

theorem totalAmount_rescale_mul_le (h : Tidy l) (hn : 0 ≤ n) (ht : 0 < t) :
    totalAmount (rescale (fun e => e.amount * n / t) l) * t ≤ totalAmount l * n := by
  induction l with
  | nil => simp [rescale, totalAmount]
  | cons e l ih =>
    have hi := ih h.tail
    have hp := h.positive e List.mem_cons_self
    have hd := Int.ediv_mul_le (e.amount * n) ht.ne'
    have hz := Int.ediv_nonneg (mul_nonneg hp.le hn) ht.le
    rw [rescale_cons, totalAmount_cons, add_mul]
    split
    · simp only [List.singleton_append, totalAmount_cons, add_mul]
      omega
    · rw [List.nil_append]
      have := mul_nonneg hp.le hn
      omega

/-- Trimming all delegations in proportion to a balance leaves no more than the balance. -/
theorem totalAmount_trim_le (h : Tidy l) (hn : 0 ≤ n) (ht : 0 < totalAmount l) :
    totalAmount (rescale (fun e => e.amount * n / totalAmount l) l) ≤ n := by
  have hm := totalAmount_rescale_mul_le h hn ht
  rw [mul_comm (totalAmount l)] at hm
  exact le_of_mul_le_mul_right hm ht

theorem Tidy.snoc (h : Tidy l) (hd : d ∉ l.map Delegation.delegatee) (hn : 0 < n) (epoch : Nat) :
    Tidy (l ++ [⟨d, n, epoch⟩]) where
  nodup := by
    rw [List.map_append]
    exact h.nodup.append (List.nodup_singleton d) (List.disjoint_singleton.mpr hd)
  positive e he := by
    rcases List.mem_append.mp he with he | he
    · exact h.positive e he
    · rw [List.mem_singleton.mp he]
      exact hn

theorem amountTo_snoc (l : List Delegation) (d d' : Address) (n : Int) (epoch : Nat) :
    amountTo d' (l ++ [⟨d, n, epoch⟩]) = amountTo d' l + if d = d' then n else 0 := by
  rw [amountTo_append, amountTo_singleton]

end Shelterflex.StakeDelegation
