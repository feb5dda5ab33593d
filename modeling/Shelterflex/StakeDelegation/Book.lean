import Shelterflex.StakeDelegation.Delegations

namespace Shelterflex.StakeDelegation
open Lib
set_option autoImplicit true

/-- Who has staked how much, and who delegates how much to whom. -/
structure Book where
  delegations : Address → List Delegation
  delegators : Address → List Address
  stake : Address → Int
  balance : Address → Int
  total : Int

def book (s : State) : Book :=
  ⟨getDelegations s, getDelegatorsOf s, getDelegateeStake s, getStakedBalance s, getTotalStaked s⟩

namespace Book

/-- What one address delegates to another. -/
def position (b : Book) (a d : Address) : Int := amountTo d (b.delegations a)

noncomputable def received (b : Book) (d : Address) : Int := ∑ᶠ a, b.position a d

structure Valid (b : Book) : Prop where
  tidy : ∀ a, Tidy (b.delegations a)
  nodup : ∀ d, (b.delegators d).Nodup
  listed : ∀ a d, a ∈ b.delegators d ↔ 0 < b.position a d
  covered : ∀ a, totalAmount (b.delegations a) ≤ b.balance a
  finite : b.balance.support.Finite

theorem Valid.position_nonneg {b : Book} (h : b.Valid) (a d : Address) : 0 ≤ b.position a d :=
  (h.tidy a).amountTo_nonneg d

theorem Valid.position_le {b : Book} (h : b.Valid) (a d : Address) :
    b.position a d ≤ b.balance a :=
  ((h.tidy a).amountTo_le d).trans (h.covered a)

theorem Valid.balance_nonneg {b : Book} (h : b.Valid) (a : Address) : 0 ≤ b.balance a :=
  (h.tidy a).totalAmount_nonneg.trans (h.covered a)

/-- The total is what the stakers have together. It is not after a stake that comes before
`init`. -/
def Balanced (b : Book) : Prop := b.total = ∑ᶠ a, b.balance a

theorem Balanced.total_nonneg {b : Book} (hb : b.Balanced) (h : b.Valid) : 0 ≤ b.total :=
  hb.ge.trans' (finsum_nonneg h.balance_nonneg)

theorem Valid.position_finite {b : Book} (h : b.Valid) (d : Address) :
    (b.position · d).support.Finite := by
  apply h.finite.subset
  intro a ha hb
  have hn := h.position_nonneg a d
  have hle := h.position_le a d
  exact ha (by simp only at hn hle ⊢; omega)

theorem Valid.received_nonneg {b : Book} (h : b.Valid) (d : Address) : 0 ≤ b.received d :=
  finsum_nonneg fun a => h.position_nonneg a d

theorem Valid.position_le_received {b : Book} (h : b.Valid) (a d : Address) :
    b.position a d ≤ b.received d :=
  le_finsum (h.position_finite d) (fun a => h.position_nonneg a d) a

/-! A call of one staker rewrites the row of that staker. -/

/-- The delegators of a delegatee, once a staker's delegation to it is of the given amount. -/
def enlist (a : Address) (n : Int) (as : List Address) : List Address :=
  if 0 < n then (if a ∈ as then as else as ++ [a]) else as.filter (· ≠ a)

theorem enlist_nodup (h : as.Nodup) (a : Address) (n : Int) : (enlist a n as).Nodup := by
  unfold enlist
  split
  · split
    · exact h
    · rename_i ha
      exact h.append (List.nodup_singleton a) (List.disjoint_singleton.mpr ha)
  · exact h.filter _

theorem mem_enlist (a a' : Address) (n : Int) (as : List Address) :
    a' ∈ enlist a n as ↔ if a' = a then 0 < n else a' ∈ as := by
  unfold enlist
  split
  · split
    · split <;> simp_all
    · split <;> simp_all
  · split <;> simp_all

theorem enlist_same (h : a ∈ as ↔ 0 < n) : enlist a n as = as := by
  unfold enlist
  split <;> rename_i hn
  · exact if_pos (h.mpr hn)
  · apply List.filter_eq_self.mpr
    intro a' ha'
    exact decide_eq_true fun he => hn (h.mp (he ▸ ha'))

def row (b : Book) (a : Address) (l : List Delegation) (stake : Address → Int) (n : Int) :
    Book where
  delegations := Function.update b.delegations a l
  delegators d := enlist a (amountTo d l) (b.delegators d)
  stake := stake
  balance := Function.update b.balance a n
  total := b.total - b.balance a + n

theorem position_row_self (b : Book) (a d : Address) (l : List Delegation)
    (stake : Address → Int) (n : Int) : (b.row a l stake n).position a d = amountTo d l := by
  simp only [position, row, Function.update_self]

theorem position_row_of_ne (b : Book) (h : a' ≠ a) (d : Address) (l : List Delegation)
    (stake : Address → Int) (n : Int) :
    (b.row a l stake n).position a' d = b.position a' d := by
  simp only [position, row, Function.update_of_ne h]

theorem Valid.row {b : Book} (h : b.Valid) (a : Address) (hl : Tidy l) (hn : totalAmount l ≤ n)
    (stake : Address → Int) : (b.row a l stake n).Valid where
  tidy a' := by
    by_cases he : a' = a
    · simpa only [Book.row, he, Function.update_self] using hl
    · simpa only [Book.row, Function.update_of_ne he] using h.tidy a'
  nodup d := enlist_nodup (h.nodup d) a _
  listed a' d := by
    refine (mem_enlist a a' _ _).trans ?_
    by_cases he : a' = a
    · rw [if_pos he, he, position_row_self]
    · rw [if_neg he, position_row_of_ne b he, h.listed]
  covered a' := by
    by_cases he : a' = a
    · simpa only [Book.row, he, Function.update_self] using hn
    · simpa only [Book.row, Function.update_of_ne he] using h.covered a'
  finite := change_support_finite h.finite a fun _ hi => Function.update_of_ne hi _ _

theorem Balanced.row {b : Book} (hb : b.Balanced) (h : b.Valid) (a : Address)
    (l : List Delegation) (stake : Address → Int) (n : Int) : (b.row a l stake n).Balanced := by
  have hc := finsum_change (g := (b.row a l stake n).balance) h.finite a fun _ hi =>
    Function.update_of_ne hi _ _
  have hs : (b.row a l stake n).balance a = n := Function.update_self ..
  rw [Balanced, hc, hs, ← hb]
  rfl

theorem Valid.received_row {b : Book} (h : b.Valid) (a d : Address) (l : List Delegation)
    (stake : Address → Int) (n : Int) :
    (b.row a l stake n).received d = b.received d - b.position a d + amountTo d l := by
  have hc := finsum_change (g := ((b.row a l stake n).position · d)) (h.position_finite d) a
    fun a' hi => position_row_of_ne b hi d l stake n
  rw [position_row_self] at hc
  exact hc

/-! A slash of a delegatee rewrites the column of that delegatee. -/

/-- What is left of a position when the stake of its delegatee becomes `n`. -/
def share (b : Book) (d : Address) (n : Int) (x : Int) : Int := x * n / b.stake d

noncomputable def column (b : Book) (d : Address) (n : Int) : Book where
  delegations a := rescale (setAmount d (b.share d n)) (b.delegations a)
  delegators := Function.update b.delegators d
    ((b.delegators d).filter fun a => 0 < b.share d n (b.position a d))
  stake := Function.update b.stake d n
  balance a := b.balance a - (b.position a d - b.share d n (b.position a d))
  total := max (b.total - ∑ᶠ a, (b.position a d - b.share d n (b.position a d))) 0

section
variable {b : Book} (h : b.Valid) (hn : 0 ≤ n) (hd : n < b.stake d)
include h hn hd

theorem Valid.share_nonneg (a : Address) : 0 ≤ b.share d n (b.position a d) :=
  Int.ediv_nonneg (mul_nonneg (h.position_nonneg a d) hn) (by omega)

theorem Valid.share_le (a : Address) : b.share d n (b.position a d) ≤ b.position a d :=
  part_le (h.position_nonneg a d) hd.le (hn.trans_lt hd)

theorem Valid.position_column (a : Address) :
    (b.column d n).position a d = b.share d n (b.position a d) := by
  by_cases hm : d ∈ (b.delegations a).map Delegation.delegatee
  · rw [position, column, amountTo_setAmount (h.tidy a) hm]
    exact max_eq_left (h.share_nonneg hn hd a)
  · have hz : b.position a d = 0 := amountTo_absent hm
    rw [position, column, amountTo_rescale_absent _ hm, hz, share, zero_mul, Int.zero_ediv]

theorem Valid.position_column_le (a d' : Address) :
    (b.column d n).position a d' ≤ b.position a d' := by
  by_cases he : d' = d
  · rw [he, h.position_column hn hd a]
    exact h.share_le hn hd a
  · exact (amountTo_setAmount_of_ne (h.tidy a) _ he).le

theorem Valid.lost_finite :
    (fun a => b.position a d - b.share d n (b.position a d)).support.Finite := by
  apply (h.position_finite d).subset
  intro a ha hz
  apply ha
  have hl := h.share_le hn hd a
  have hs := h.share_nonneg hn hd a
  simp only at hz ⊢
  omega

theorem Valid.column : (b.column d n).Valid where
  tidy a := rescale_tidy (h.tidy a) _
  nodup d' := by
    by_cases he : d' = d
    · simpa only [Book.column, he, Function.update_self] using (h.nodup d).filter _
    · simpa only [Book.column, Function.update_of_ne he] using h.nodup d'
  listed a d' := by
    by_cases he : d' = d
    · rw [he, h.position_column hn hd a]
      simp only [Book.column, Function.update_self, List.mem_filter, decide_eq_true_eq,
        and_iff_right_iff_imp]
      intro hp
      exact (h.listed a d).mpr (hp.trans_le (h.share_le hn hd a))
    · simp only [Book.column, Function.update_of_ne he]
      rw [h.listed, position, position, amountTo_setAmount_of_ne (h.tidy a) _ he]
  covered a := by
    have hp := h.position_column hn hd a
    have hc := h.covered a
    have ht : totalAmount ((b.column d n).delegations a) = totalAmount (b.delegations a) -
        amountTo d (b.delegations a) + amountTo d ((b.column d n).delegations a) :=
      totalAmount_change fun d' he => amountTo_setAmount_of_ne (h.tidy a) _ he
    simp only [position] at hp
    rw [ht, hp]
    simp only [Book.column, position]
    omega
  finite := by
    apply (h.finite.union (h.lost_finite hn hd)).subset
    intro a ha
    by_contra hz
    simp only [Set.mem_union, Function.mem_support, not_or, not_not] at hz
    exact ha (by simp only [Book.column, hz.1, hz.2, sub_zero])

theorem Balanced.column (hb : b.Balanced) : (b.column d n).Balanced := by
  have hs := finsum_sub_distrib h.finite (h.lost_finite hn hd)
  have hnn := finsum_nonneg (h.column hn hd).balance_nonneg
  rw [← hb] at hs
  -- the clamp of the total at zero is never met
  exact (max_eq_left (hnn.trans_eq hs)).trans hs.symm

end

theorem Valid.received_column_of_ne {b : Book} (h : b.Valid) (he : d' ≠ d) :
    (b.column d n).received d' = b.received d' := by
  apply finsum_congr
  intro a
  exact amountTo_setAmount_of_ne (h.tidy a) _ he

theorem Valid.received_column_mul {b : Book} (h : b.Valid) (hn : 0 ≤ n) (hd : n < b.stake d)
    (he : ∀ a ∈ b.delegators d, b.stake d ∣ b.position a d * n) :
    (b.column d n).received d * b.stake d = b.received d * n := by
  rw [received, received, finsum_mul, finsum_mul]
  apply finsum_congr
  intro a
  rw [h.position_column hn hd, share]
  apply Int.ediv_mul_cancel
  by_cases hm : a ∈ b.delegators d
  · exact he a hm
  · have hz := h.position_nonneg a d
    have hp := (h.listed a d).not.mp hm
    rw [show b.position a d = 0 by omega, zero_mul]
    exact Int.dvd_zero _

/-! The moves of the contract -/

/-- How a call moves the book. The two conditions say that no more is undelegated than was
delegated, and that a slash divides evenly. -/
inductive Moves (within even : Prop) (b : Book) : Book → Prop where
  | keep : Moves within even b b
  | row : Tidy l → totalAmount l ≤ n →
      (∀ d, stake' d ≤ max (b.stake d - b.position a d + amountTo d l) 0) →
      (within → (∀ d, b.position a d ≤ b.stake d) →
        ∀ d, stake' d = b.stake d - b.position a d + amountTo d l) →
      Moves within even b (b.row a l stake' n)
  | column : 0 ≤ n → n < b.stake d →
      (even → ∀ a ∈ b.delegators d, b.stake d ∣ b.position a d * n) →
      Moves within even b (b.column d n)

theorem eq_row {b b' : Book} (h₁ : b'.delegations = Function.update b.delegations a l)
    (h₂ : ∀ d, b'.delegators d = enlist a (amountTo d l) (b.delegators d))
    (h₃ : b'.balance = Function.update b.balance a n)
    (h₄ : b'.total = b.total - b.balance a + n) : b' = b.row a l b'.stake n := by
  cases b'
  rw [Book.row, ← h₁, ← h₃, ← h₄, ← funext h₂]

theorem Moves.of_row {b b' : Book} (hl : Tidy l) (hn : totalAmount l ≤ n)
    (he : b' = b.row a l b'.stake n)
    (hs : ∀ d, b'.stake d ≤ max (b.stake d - b.position a d + amountTo d l) 0)
    (hw : within → (∀ d, b.position a d ≤ b.stake d) →
      ∀ d, b'.stake d = b.stake d - b.position a d + amountTo d l) :
    Moves within even b b' := by
  rw [he]
  exact .row hl hn hs hw

theorem Moves.of_balance {b b' : Book} (hv : b.Valid) (hn : totalAmount (b.delegations a) ≤ n)
    (h₁ : b'.delegations = b.delegations) (h₂ : b'.delegators = b.delegators)
    (h₃ : b'.balance = Function.update b.balance a n) (h₄ : b'.total = b.total - b.balance a + n)
    (h₅ : b'.stake = b.stake) : Moves within even b b' := by
  have hs (d : Address) : b'.stake d = b.stake d - b.position a d + amountTo d (b.delegations a) :=
    (congrFun h₅ d).trans (sub_add_cancel _ _).symm
  apply Moves.of_row (hv.tidy a) hn _ (fun d => (hs d).le.trans (le_max_left _ _)) fun _ _ => hs
  apply eq_row _ _ h₃ h₄
  · rw [h₁, Function.update_eq_self]
  · intro d
    rw [h₂]
    exact (enlist_same (hv.listed a d)).symm

theorem row_of_entry {b b' : Book} (hv : b.Valid)
    (hd : ∀ d', d' ≠ d → amountTo d' l = b.position a d')
    (h₁ : b'.delegations = Function.update b.delegations a l)
    (h₂ : b'.delegators = Function.update b.delegators d
      (enlist a (amountTo d l) (b.delegators d)))
    (h₃ : b'.balance = b.balance) (h₄ : b'.total = b.total) :
    b' = b.row a l b'.stake (b.balance a) := by
  apply eq_row h₁ _ _ (h₄.trans (sub_add_cancel _ _).symm)
  · intro d'
    rw [h₂]
    by_cases he : d' = d
    · rw [he, Function.update_self]
    · rw [Function.update_of_ne he, hd d' he, enlist_same (hv.listed a d')]
  · rw [h₃, Function.update_eq_self]

theorem Moves.of_entry {b : Book} (hl : Tidy l)
    (hd : ∀ d', d' ≠ d → amountTo d' l = b.position a d')
    (hn : amountTo d l - b.position a d ≤ b.balance a - totalAmount (b.delegations a))
    (hx : x ≤ b.stake d - b.position a d + amountTo d l)
    (hw : within → x = b.stake d - b.position a d + amountTo d l) :
    Moves within even b (b.row a l (Function.update b.stake d x) (b.balance a)) := by
  have ht := totalAmount_change hd
  have hs (d' : Address) (he : d' ≠ d) :
      Function.update b.stake d x d' = b.stake d' - b.position a d' + amountTo d' l := by
    rw [Function.update_of_ne he, hd d' he, sub_add_cancel]
  apply Moves.row hl
  · simp only [position] at hn
    omega
  · intro d'
    by_cases he : d' = d
    · rw [he, Function.update_self]
      exact hx.trans (le_max_left _ _)
    · exact (hs d' he).le.trans (le_max_left _ _)
  · intro hw' _ d'
    by_cases he : d' = d
    · rw [he, Function.update_self]
      exact hw hw'
    · exact hs d' he

theorem eq_column {b b' : Book}
    (h₁ : ∀ a, b'.delegations a = rescale (setAmount d (b.share d n)) (b.delegations a))
    (h₂ : b'.delegators = Function.update b.delegators d
      ((b.delegators d).filter fun a => 0 < b.share d n (b.position a d)))
    (h₃ : b'.stake = Function.update b.stake d n)
    (h₄ : ∀ a, b'.balance a = b.balance a - (b.position a d - b.share d n (b.position a d)))
    (h₅ : b'.total =
      max (b.total - ∑ᶠ a, (b.position a d - b.share d n (b.position a d))) 0) :
    b' = b.column d n := by
  cases b'
  rw [Book.column, ← h₂, ← h₃, ← h₅, ← funext h₁, ← funext h₄]

theorem Moves.valid {b b' : Book} (h : b.Valid) (hm : Moves within even b b') : b'.Valid := by
  cases hm with
  | keep => exact h
  | row hl hn _ _ => exact h.row _ hl hn _
  | column hn hd _ => exact h.column hn hd

theorem Moves.balanced {b b' : Book} (h : b.Valid) (hm : Moves within even b b')
    (hb : b.Balanced) : b'.Balanced := by
  cases hm with
  | keep => exact hb
  | row _ _ _ _ => exact hb.row h _ _ _ _
  | column hn hd _ => exact hb.column h hn hd

/-- Every delegatee's stake is what its delegators delegate to it. -/
def Agrees (b : Book) : Prop := ∀ d, b.stake d = b.received d

theorem Moves.agrees {b b' : Book} (h : b.Valid) (hw : within) (he : even)
    (hm : Moves within even b b') (ha : b.Agrees) : b'.Agrees := by
  cases hm with
  | keep => exact ha
  | @row l n stake' a _ _ _ hs =>
    intro d
    have hle : ∀ d, b.position a d ≤ b.stake d := fun d => by
      rw [ha d]
      exact h.position_le_received a d
    rw [h.received_row, ← ha d]
    exact hs hw hle d
  | @column n d hn hd hx =>
    intro d'
    by_cases hd' : d' = d
    · have hr := h.received_column_mul hn hd (hx he)
      rw [← ha d, mul_comm (b.stake d)] at hr
      rw [hd', mul_right_cancel₀ (hn.trans_lt hd).ne' hr]
      exact Function.update_self ..
    · rw [h.received_column_of_ne hd', ← ha d']
      exact Function.update_of_ne hd' _ _

/-- No delegatee has more stake than its delegators delegate to it. -/
def Backed (b : Book) : Prop := ∀ d, b.stake d ≤ b.received d

theorem Moves.backed {b b' : Book} (h : b.Valid) (he : even) (hm : Moves within even b b')
    (hb : b.Backed) : b'.Backed := by
  cases hm with
  | keep => exact hb
  | @row l n stake' a hl hn hs _ =>
    intro d
    have hv := (h.row a hl hn stake').received_nonneg d
    have hd := hb d
    apply (hs d).trans
    rw [h.received_row] at hv ⊢
    omega
  | @column n d hn hd hx =>
    intro d'
    by_cases hd' : d' = d
    · have hr := h.received_column_mul hn hd (hx he)
      have hm := mul_le_mul_of_nonneg_right (hb d) hn
      rw [← hr, mul_comm] at hm
      have hs : (b.column d n).stake d = n := Function.update_self ..
      rw [hd', hs]
      exact le_of_mul_le_mul_right hm (hn.trans_lt hd)
    · have hs : (b.column d n).stake d' = b.stake d' := Function.update_of_ne hd' _ _
      rw [h.received_column_of_ne hd', hs]
      exact hb d'

theorem Valid.received_finite {b : Book} (h : b.Valid) : b.received.support.Finite := by
  apply (h.finite.biUnion fun a _ => amountTo_finite (b.delegations a)).subset
  intro d hd
  by_contra hn
  simp only [Set.mem_iUnion, Function.mem_support, not_exists, not_not] at hn
  apply hd
  refine (finsum_congr fun a => ?_).trans finsum_zero
  by_cases hb : b.balance a = 0
  · have hp := h.position_nonneg a d
    have hle := h.position_le a d
    omega
  · exact hn a hb

theorem Valid.sum_received_le {b : Book} (h : b.Valid) :
    ∑ᶠ d, b.received d ≤ ∑ᶠ a, b.balance a := by
  have hr (d : Address) : b.received d = ∑ a ∈ h.finite.toFinset, b.position a d := by
    apply finsum_eq_sum_of_support_subset
    intro a ha
    rw [Set.Finite.coe_toFinset]
    intro hb
    have hn := h.position_nonneg a d
    have hle := h.position_le a d
    exact ha (by simp only at hn hle ⊢; omega)
  calc ∑ᶠ d, b.received d
      = ∑ᶠ d, ∑ a ∈ h.finite.toFinset, b.position a d := finsum_congr hr
    _ = ∑ a ∈ h.finite.toFinset, ∑ᶠ d, b.position a d :=
      finsum_sum_comm _ _ fun a _ => amountTo_finite (b.delegations a)
    _ ≤ ∑ a ∈ h.finite.toFinset, b.balance a := by
      apply Finset.sum_le_sum
      intro a _
      exact (totalAmount_eq _).ge.trans (h.covered a)
    _ = ∑ᶠ a, b.balance a := (finsum_eq_sum _ h.finite).symm

end Book

end Shelterflex.StakeDelegation
