import Shelterflex.StakingPool.Model

namespace Shelterflex.StakingPool
open Lib
set_option autoImplicit true

def amountAt (s : State) (user : Address) (i : Nat) : Int :=
  ((getDeposit s user i).map Deposit.amount).getD 0

/-- The amounts of the deposits a user has been counted for. -/
def depositSum (s : State) (user : Address) : Int :=
  ((List.range (getDepositCount s user)).map (amountAt s user)).sum

/-- A deposit that its lock period no longer holds. -/
def Deposit.Unlocked (lockPeriod currentTime : Nat) (d : Deposit) : Prop :=
  lockPeriod = 0 ∨ d.timestamp + lockPeriod ≤ currentTime

instance : Decidable (Deposit.Unlocked lockPeriod currentTime d) :=
  inferInstanceAs (Decidable (_ ∨ _))

def unlockedAt (lockPeriod currentTime : Nat) (s : State) (user : Address) (i : Nat) : Int :=
  ((getDeposit s user i).map fun d =>
    if d.Unlocked lockPeriod currentTime then d.amount else 0).getD 0

def Positive (s : State) : Prop := ∀ user i d, getDeposit s user i = some d → 0 < d.amount

theorem isUnlocked_ok (h : isUnlocked lockPeriod currentTime d = .ok b) :
    b = decide (d.Unlocked lockPeriod currentTime) := by
  unfold isUnlocked at h
  unfold Deposit.Unlocked
  split at h <;> rename_i hl
  · simp only [← pure_ok.mp h, hl, true_or, decide_true]
  · simp only [bind_ok, u64Add_ok, pure_ok] at h
    obtain ⟨_, ⟨_, rfl⟩, rfl⟩ := h
    simp only [hl, false_or]

theorem addUnlocked_ok (h : addUnlocked lockPeriod currentTime user s n i = .ok m) :
    m = n + unlockedAt lockPeriod currentTime s user i := by
  unfold addUnlocked at h
  unfold unlockedAt
  cases hd : getDeposit s user i with
  | none =>
    rw [hd] at h
    exact (pure_ok.mp h).symm.trans (add_zero n).symm
  | some d =>
    simp only [hd, bind_ok] at h
    obtain ⟨b, hb, h⟩ := h
    rw [isUnlocked_ok hb] at h
    simp only [Option.map_some, Option.getD_some]
    by_cases hu : d.Unlocked lockPeriod currentTime
    · simp only [hu, decide_true, if_true, i128Add_ok] at h ⊢
      exact h.2.symm
    · simp only [hu, decide_false, Bool.false_eq_true, if_false, add_zero] at h ⊢
      exact (pure_ok.mp h).symm

theorem addUnlocked_fold (is : List Nat)
    (h : is.foldlM (addUnlocked lockPeriod currentTime user s) n = .ok m) :
    m = n + (is.map (unlockedAt lockPeriod currentTime s user)).sum :=
  foldlM_sum (g := unlockedAt lockPeriod currentTime s user) (fun hi => addUnlocked_ok hi) h

theorem unlockedAt_nonneg (hp : Positive s) (lockPeriod currentTime : Nat) (user : Address)
    (i : Nat) : 0 ≤ unlockedAt lockPeriod currentTime s user i := by
  unfold unlockedAt
  cases hd : getDeposit s user i with
  | none => exact le_rfl
  | some d =>
    simp only [Option.map_some, Option.getD_some]
    split
    · exact (hp user i d hd).le
    · exact le_rfl

/-- The states differ in one deposit, from which `x` was taken. -/
structure Takes (user : Address) (i : Nat) (x : Int) (s s' : State) : Prop where
  frame : ∃ D, s' = { s with deposit := D }
  amount : amountAt s' user i = amountAt s user i - x
  other : ∀ user' j, (user', j) ≠ (user, i) → getDeposit s' user' j = getDeposit s user' j
  positive : Positive s'

theorem Takes.refl (hp : Positive s) : Takes user i 0 s s :=
  ⟨⟨s.deposit, rfl⟩, (sub_zero _).symm, fun _ _ _ => rfl, hp⟩

theorem Takes.same {is : List Nat} (h : Takes user i x s s') (hi : i ∉ is) (hj : j ∈ is) :
    getDeposit s' user j = getDeposit s user j := by
  apply h.other
  intro he
  exact hi ((Prod.mk.inj he).2 ▸ hj)

theorem takeFrom_ok (h : takeFrom user i d n s = .ok (m, s')) (hp : Positive s)
    (hd : getDeposit s user i = some d) :
    m = n - min n d.amount ∧ Takes user i (min n d.amount) s s' := by
  have ha : amountAt s user i = d.amount := by rw [amountAt, hd]; rfl
  unfold takeFrom at h
  split at h <;> rename_i hle
  · simp only [bind_ok, i128Sub_ok, pure_ok, Prod.mk.injEq] at h
    obtain ⟨_, ⟨_, rfl⟩, rfl, rfl⟩ := h
    rw [min_eq_right hle]
    refine ⟨rfl, ⟨_, rfl⟩, ?_, ?_, ?_⟩
    · rw [ha, sub_self]
      simp only [amountAt, getDeposit, Store.get_remove_self, Option.map_none, Option.getD_none]
    · exact fun _ _ he => Store.get_remove_of_ne _ he
    · intro user' j d' hd'
      simp only [getDeposit, Store.get_remove] at hd'
      split at hd'
      · cases hd'
      · exact hp user' j d' hd'
  · simp only [bind_ok, i128Sub_ok, pure_ok, Prod.mk.injEq] at h
    obtain ⟨_, ⟨_, rfl⟩, rfl, rfl⟩ := h
    rw [min_eq_left (not_le.mp hle).le]
    refine ⟨(sub_self n).symm, ⟨_, rfl⟩, ?_, ?_, ?_⟩
    · rw [ha]
      simp only [amountAt, getDeposit, Store.get_set_self, Option.map_some, Option.getD_some]
    · exact fun _ _ he => Store.get_set_of_ne _ _ he
    · intro user' j d' hd'
      simp only [getDeposit, Store.get_set] at hd'
      split at hd'
      · cases hd'
        exact sub_pos.mpr (not_le.mp hle)
      · exact hp user' j d' hd'

theorem consumeDeposit_cases {r r' : Int × State}
    (h : consumeDeposit lockPeriod currentTime user r i = .ok r') :
    (r' = r ∧ (r.1 = 0 ∨
      ∀ d, getDeposit r.2 user i = some d → ¬ d.Unlocked lockPeriod currentTime)) ∨
    ∃ d, getDeposit r.2 user i = some d ∧ d.Unlocked lockPeriod currentTime ∧
      takeFrom user i d r.1 r.2 = .ok r' := by
  unfold consumeDeposit at h
  split at h
  · rename_i hz
    exact .inl ⟨(pure_ok.mp h).symm, .inl hz⟩
  · cases hd : getDeposit r.2 user i with
    | none =>
      rw [hd] at h
      exact .inl ⟨(pure_ok.mp h).symm, .inr nofun⟩
    | some d =>
      simp only [hd, bind_ok] at h
      obtain ⟨b, hb, h⟩ := h
      rw [isUnlocked_ok hb] at h
      by_cases hu : d.Unlocked lockPeriod currentTime
      · simp only [hu, decide_true, if_true] at h
        exact .inr ⟨d, rfl, hu, h⟩
      · simp only [hu, decide_false, Bool.false_eq_true, if_false] at h
        refine .inl ⟨(pure_ok.mp h).symm, .inr fun d' hd' => ?_⟩
        cases hd'
        exact hu

theorem unlockedAt_of_some (h : getDeposit s user i = some d)
    (hu : d.Unlocked lockPeriod time) : unlockedAt lockPeriod time s user i = d.amount := by
  rw [unlockedAt, h, Option.map_some, Option.getD_some, if_pos hu]

theorem unlockedAt_of_not
    (h : ∀ d, getDeposit s user i = some d → ¬ d.Unlocked lockPeriod time) :
    unlockedAt lockPeriod time s user i = 0 := by
  unfold unlockedAt
  cases hd : getDeposit s user i with
  | none => rfl
  | some d =>
    rw [Option.map_some, Option.getD_some]
    exact if_neg (h d hd)

theorem consumeDeposit_ok {r r' : Int × State}
    (h : consumeDeposit lockPeriod currentTime user r i = .ok r') (hp : Positive r.2)
    (hr : 0 ≤ r.1) :
    r'.1 = r.1 - min r.1 (unlockedAt lockPeriod currentTime r.2 user i) ∧
      Takes user i (min r.1 (unlockedAt lockPeriod currentTime r.2 user i)) r.2 r'.2 := by
  rcases consumeDeposit_cases h with ⟨rfl, hkeep⟩ | ⟨d, hd, hu, ht⟩
  · have hu := unlockedAt_nonneg hp lockPeriod currentTime user i
    have hz : min r'.1 (unlockedAt lockPeriod currentTime r'.2 user i) = 0 := by
      rcases hkeep with hz | hl
      · rw [hz, min_eq_left hu]
      · rw [unlockedAt_of_not hl, min_eq_right hr]
    rw [hz]
    exact ⟨(sub_zero _).symm, .refl hp⟩
  · rw [unlockedAt_of_some hd hu]
    exact takeFrom_ok ht hp hd

/-- What the second loop of `unstake` does to the deposits of the user. -/
theorem consumeDeposit_fold {r r' : Int × State} {is : List Nat}
    (h : is.foldlM (consumeDeposit lockPeriod currentTime user) r = .ok r') (his : is.Nodup)
    (hp : Positive r.2) (hr : 0 ≤ r.1) :
    r'.1 = r.1 - min r.1 ((is.map (unlockedAt lockPeriod currentTime r.2 user)).sum) ∧
      (∃ D, r'.2 = { r.2 with deposit := D }) ∧
      (is.map (amountAt r'.2 user)).sum = (is.map (amountAt r.2 user)).sum - (r.1 - r'.1) ∧
      (∀ user' j, user' ≠ user ∨ j ∉ is → getDeposit r'.2 user' j = getDeposit r.2 user' j) ∧
      Positive r'.2 := by
  induction is generalizing r with
  | nil =>
    cases h
    refine ⟨?_, ⟨r'.2.deposit, rfl⟩, ?_, fun _ _ _ => rfl, hp⟩
    · simp only [List.map_nil, List.sum_nil]
      omega
    · simp only [List.map_nil, List.sum_nil]
      omega
  | cons i is ih =>
    obtain ⟨hi, his⟩ := List.nodup_cons.mp his
    simp only [List.foldlM_cons, bind_ok] at h
    obtain ⟨r₁, h₁, h⟩ := h
    obtain ⟨hm, ht⟩ := consumeDeposit_ok h₁ hp hr
    have hu := unlockedAt_nonneg hp lockPeriod currentTime user i
    obtain ⟨D₁, hD₁⟩ := ht.frame
    obtain ⟨hm', ⟨D, hD⟩, hsum, hother, hp'⟩ := ih h his ht.positive (by omega)
    have hunl : is.map (unlockedAt lockPeriod currentTime r₁.2 user) =
        is.map (unlockedAt lockPeriod currentTime r.2 user) :=
      List.map_congr_left fun j hj => by rw [unlockedAt, unlockedAt, ht.same hi hj]
    have hamt : is.map (amountAt r₁.2 user) = is.map (amountAt r.2 user) :=
      List.map_congr_left fun j hj => by rw [amountAt, amountAt, ht.same hi hj]
    have hhead : amountAt r'.2 user i = amountAt r₁.2 user i := by
      rw [amountAt, amountAt, hother user i (.inr hi)]
    have hnn : 0 ≤ (is.map (unlockedAt lockPeriod currentTime r.2 user)).sum := by
      apply List.sum_nonneg
      intro x hx
      obtain ⟨j, _, rfl⟩ := List.mem_map.mp hx
      exact unlockedAt_nonneg hp _ _ _ _
    have hamount := ht.amount
    rw [hunl] at hm'
    rw [hamt] at hsum
    simp only [List.map_cons, List.sum_cons]
    refine ⟨by omega, ⟨D, by rw [hD, hD₁]⟩, by omega, ?_, hp'⟩
    intro user' j hj
    rw [hother user' j (hj.imp_right fun hj hm => hj (List.mem_cons_of_mem _ hm))]
    apply ht.other
    rintro ⟨rfl, rfl⟩
    rcases hj with hj | hj
    · exact hj rfl
    · exact hj List.mem_cons_self

end Shelterflex.StakingPool
