import Shelterflex.StakeDelegation.Book

namespace Shelterflex.StakeDelegation
open Lib
set_option autoImplicit true

/-! What the loops of the contract compute -/

theorem totalDelegated_ok (h : totalDelegated s a = .ok n) :
    n = totalAmount (getDelegations s a) := by
  unfold totalDelegated at h
  have hsum := foldlM_sum (g := Delegation.amount) (fun hadd => (i128Add_ok.mp hadd).2.symm) h
  rw [hsum, zero_add, totalAmount]

theorem raiseDelegation_ok (h : raiseDelegation d n e = .ok e') :
    e' = { e with amount := setAmount d (· + n) e } := by
  unfold raiseDelegation at h
  unfold setAmount
  split at h
  · simp only [bind_ok, i128Add_ok, pure_ok] at h
    obtain ⟨_, ⟨_, rfl⟩, rfl⟩ := h
    rw [if_pos ‹_›]
  · rw [if_neg ‹_›]
    exact (pure_ok.mp h).symm

theorem mapM_raise_ok (hl : Tidy l) (hn : 0 < n) (h : l.mapM (raiseDelegation d n) = .ok l') :
    l' = rescale (setAmount d (· + n)) l := by
  have hmap : l' = l.map fun e => { e with amount := setAmount d (· + n) e } := by
    clear hl
    induction l generalizing l' with
    | nil =>
      cases h
      rfl
    | cons e l ih =>
      simp only [List.mapM_cons, bind_ok, pure_ok] at h
      obtain ⟨_, he, _, hr, rfl⟩ := h
      rw [ih hr, raiseDelegation_ok he]
      rfl
  rw [hmap, rescale_map]
  intro e he
  have hp := hl.positive e he
  unfold setAmount
  split
  · exact add_pos hp hn
  · exact hp

theorem undelegateFrom_ok (he : 0 < e.amount) (h : undelegateFrom d n r e = .ok r') :
    r'.newDelegations = r.newDelegations ++ rescale (setAmount d (· - n)) [e] ∧
      r'.amountRemoved = (if e.delegatee = d then n else r.amountRemoved) ∧
      r'.fullyRemoved = (r.fullyRemoved || decide (e.delegatee = d ∧ e.amount ≤ n)) := by
  unfold undelegateFrom at h
  rw [rescale_singleton]
  split at h <;> rename_i hd
  · simp only [bind_ok, i128Sub_ok] at h
    obtain ⟨_, ⟨_, rfl⟩, h⟩ := h
    split at h <;> rename_i hp
    · cases pure_ok.mp h
      have hn : ¬ e.amount ≤ n := by omega
      simp [setAmount_of_eq hd, hd, hn]
    · cases pure_ok.mp h
      have hn : e.amount ≤ n := by omega
      simp [setAmount_of_eq hd, hd, hn]
  · cases pure_ok.mp h
    simp [setAmount_of_ne hd, hd, he]

theorem undelegateFrom_fold (hl : Tidy l) (h : l.foldlM (undelegateFrom d n) r = .ok r') :
    r'.newDelegations = r.newDelegations ++ rescale (setAmount d (· - n)) l ∧
      r'.amountRemoved = (if d ∈ l.map Delegation.delegatee then n else r.amountRemoved) ∧
      (r'.fullyRemoved = true ↔
        r.fullyRemoved = true ∨ 0 < amountTo d l ∧ amountTo d l ≤ n) := by
  induction l generalizing r with
  | nil =>
    cases h
    simp [rescale, amountTo]
  | cons e l ih =>
    simp only [List.foldlM_cons, bind_ok] at h
    obtain ⟨r₁, he, h⟩ := h
    have hp := hl.positive e List.mem_cons_self
    have hd := (List.nodup_cons.mp hl.nodup).1
    obtain ⟨h₁, h₂, h₃⟩ := undelegateFrom_ok hp he
    obtain ⟨i₁, i₂, i₃⟩ := ih hl.tail h
    refine ⟨?_, ?_, ?_⟩
    · rw [i₁, h₁, List.append_assoc, ← rescale_append]
      rfl
    · rw [i₂, h₂]
      by_cases hx : e.delegatee = d
      · simp [hx]
      · simp [hx, Ne.symm hx]
    · rw [i₃, h₃, amountTo_cons]
      by_cases hx : e.delegatee = d
      · have hz := amountTo_absent (hx ▸ hd)
        simp [hx, hz, hp]
      · simp [hx]

/-- What a slash takes from a position. -/
def lost (newStake oldStake x : Int) : Int := x - x * newStake / oldStake

theorem proportion_ok (hx : 0 ≤ x) (hn : 0 ≤ n) (ho : 0 < o) (h : proportion x n o = .ok y) :
    y = x * n / o := by
  simp only [proportion, if_pos ho, bind_ok, i128Mul_ok, i128Div_ok] at h
  obtain ⟨_, ⟨_, rfl⟩, _, _, rfl⟩ := h
  exact Int.tdiv_eq_ediv_of_nonneg (mul_nonneg hx hn)

theorem lost_zero (n o : Int) : lost n o 0 = 0 := by
  rw [lost, zero_mul, Int.zero_ediv, sub_zero]

theorem lost_le (hx : 0 ≤ x) (hn : 0 ≤ n) (ho : n < o) : lost n o x ≤ x := by
  have hq := Int.ediv_nonneg (mul_nonneg hx hn) (hn.trans ho.le)
  rw [lost]
  omega

/-- A list with at most one delegation to `d`, which is not negative. -/
structure Single (d : Address) (l : List Delegation) : Prop where
  once : l.countP (·.delegatee = d) ≤ 1
  nonneg : ∀ e ∈ l, e.delegatee = d → 0 ≤ e.amount

theorem Tidy.single (h : Tidy l) (d : Address) : Single d l where
  once := by
    have hc := List.nodup_iff_count_le_one.mp h.nodup d
    rwa [List.count_eq_countP, List.countP_map] at hc
  nonneg e he _ := (h.positive e he).le

theorem Single.tail (h : Single d (e :: l)) : Single d l where
  once := ((List.sublist_cons_self e l).countP_le).trans h.once
  nonneg x hx := h.nonneg x (List.mem_cons_of_mem _ hx)

theorem Single.absent (h : Single d (e :: l)) (he : e.delegatee = d) :
    d ∉ l.map Delegation.delegatee := by
  intro hd
  obtain ⟨x, hx, hxd⟩ := List.mem_map.mp hd
  have hpos : 0 < l.countP (·.delegatee = d) :=
    List.countP_pos_iff.mpr ⟨x, hx, decide_eq_true hxd⟩
  have hc := h.once
  rw [List.countP_cons, if_pos (decide_eq_true he)] at hc
  omega

theorem Single.amountTo_nonneg (h : Single d l) : 0 ≤ amountTo d l := by
  apply List.sum_nonneg
  intro x hx
  obtain ⟨e, he, rfl⟩ := List.mem_map.mp hx
  split
  · exact h.nonneg e he ‹_›
  · exact le_rfl

theorem lost_cons (hl : Single d (e :: l)) (n o : Int) :
    lost n o (amountTo d (e :: l)) = lost n o (amountTo d [e]) + lost n o (amountTo d l) := by
  rw [amountTo_cons, amountTo_singleton]
  by_cases he : e.delegatee = d
  · rw [amountTo_absent (hl.absent he), lost_zero, add_zero, add_zero]
  · rw [if_neg he, zero_add, lost_zero, zero_add]

/-- The delegations of one delegator, once those to `d` are reduced in proportion. -/
def reduced (d : Address) (n o : Int) (l : List Delegation) : List Delegation :=
  l.flatMap fun e => if e.delegatee = d then rescale (fun e => e.amount * n / o) [e] else [e]

theorem reduced_cons (d : Address) (n o : Int) (e : Delegation) (l : List Delegation) :
    reduced d n o (e :: l) = reduced d n o [e] ++ reduced d n o l := by
  simp only [reduced, List.flatMap_cons, List.flatMap_nil, List.append_nil]

theorem reduced_of_eq (h : e.delegatee = d) (n o : Int) :
    reduced d n o [e] =
      if 0 < e.amount * n / o then [{ e with amount := e.amount * n / o }] else [] := by
  simp only [reduced, List.flatMap_cons, List.flatMap_nil, List.append_nil, if_pos h,
    rescale_singleton]

theorem reduced_of_ne (h : e.delegatee ≠ d) (n o : Int) : reduced d n o [e] = [e] := by
  simp only [reduced, List.flatMap_cons, List.flatMap_nil, List.append_nil, if_neg h]

theorem Tidy.reduced_eq (h : Tidy l) (d : Address) (n o : Int) :
    reduced d n o l = rescale (setAmount d (· * n / o)) l := by
  induction l with
  | nil => rfl
  | cons e l ih =>
    rw [reduced_cons, rescale_cons, ih h.tail]
    by_cases he : e.delegatee = d
    · rw [reduced_of_eq he, setAmount_of_eq he]
    · rw [reduced_of_ne he, setAmount_of_ne he, if_pos (h.positive e List.mem_cons_self)]

theorem slashDelegation_ok {r r' : DelegateeSlash} (he : e.delegatee = d → 0 ≤ e.amount)
    (hn : 0 ≤ n) (ho : n < o) (hb : amountTo d [e] ≤ getStakedBalance r.state a)
    (h : slashDelegation d n o a r e = .ok r') :
    ∃ B, r'.state = { r.state with stakedBalance := B } ∧
      (B.getD · 0) = Function.update (getStakedBalance r.state) a
        (getStakedBalance r.state a - lost n o (amountTo d [e])) ∧
      r'.totalBalanceSlashed = r.totalBalanceSlashed + lost n o (amountTo d [e]) ∧
      r'.newDelegations = r.newDelegations ++ reduced d n o [e] := by
  rw [amountTo_singleton] at hb ⊢
  unfold slashDelegation at h
  split at h <;> rename_i hd
  · simp only [bind_ok, i128Sub_ok, i128Add_ok] at h
    obtain ⟨x, hx, _, ⟨_, rfl⟩, _, ⟨_, rfl⟩, _, ⟨_, rfl⟩, h⟩ := h
    have hx' := proportion_ok (he hd) hn (hn.trans_lt ho) hx
    have hl := lost_le (he hd) hn ho
    cases pure_ok.mp h
    rw [if_pos hd] at hb
    rw [if_pos hd, reduced_of_eq hd, ← hx']
    rw [lost, ← hx'] at hl ⊢
    refine ⟨_, rfl, ?_, rfl, ?_⟩
    · funext a'
      rw [Store.getD_set, Function.update_apply, max_eq_left (by omega)]
      rfl
    · split
      · rfl
      · exact (List.append_nil _).symm
  · cases pure_ok.mp h
    rw [if_neg hd, reduced_of_ne hd, lost_zero, sub_zero, add_zero]
    refine ⟨r.state.stakedBalance, rfl, ?_, rfl, rfl⟩
    exact (Function.update_eq_self _ _).symm

theorem slashDelegation_fold {r r' : DelegateeSlash} (hl : Single d l) (hn : 0 ≤ n) (ho : n < o)
    (hb : amountTo d l ≤ getStakedBalance r.state a)
    (h : l.foldlM (slashDelegation d n o a) r = .ok r') :
    ∃ B, r'.state = { r.state with stakedBalance := B } ∧
      (B.getD · 0) = Function.update (getStakedBalance r.state) a
        (getStakedBalance r.state a - lost n o (amountTo d l)) ∧
      r'.totalBalanceSlashed = r.totalBalanceSlashed + lost n o (amountTo d l) ∧
      r'.newDelegations = r.newDelegations ++ reduced d n o l := by
  induction l generalizing r with
  | nil =>
    cases h
    refine ⟨r'.state.stakedBalance, rfl, ?_, ?_, (List.append_nil _).symm⟩
    · rw [amountTo_nil, lost_zero, sub_zero]
      exact (Function.update_eq_self _ _).symm
    · rw [amountTo_nil, lost_zero, add_zero]
  | cons e l ih =>
    have hp := hl.nonneg e List.mem_cons_self
    have hz := hl.tail.amountTo_nonneg
    have he : 0 ≤ amountTo d [e] := by
      rw [amountTo_singleton]
      split
      · exact hp ‹_›
      · exact le_rfl
    have hc : amountTo d (e :: l) = amountTo d [e] + amountTo d l := amountTo_append d [e] l
    have hle := lost_le he hn ho
    simp only [List.foldlM_cons, bind_ok] at h
    obtain ⟨r₁, h₁, h⟩ := h
    obtain ⟨B₁, hs₁, hB₁, ht₁, hl₁⟩ := slashDelegation_ok hp hn ho (by omega) h₁
    have hg : getStakedBalance r₁.state = Function.update (getStakedBalance r.state) a
        (getStakedBalance r.state a - lost n o (amountTo d [e])) := by
      rw [hs₁]
      exact hB₁
    obtain ⟨B, hs, hB, ht, hl'⟩ := ih hl.tail (by rw [hg, Function.update_self]; omega) h
    refine ⟨B, by rw [hs, hs₁], ?_, ?_, ?_⟩
    · rw [hB, hg, Function.update_idem, Function.update_self, lost_cons hl]
      congr 1
      omega
    · rw [ht, ht₁, lost_cons hl, add_assoc]
    · rw [hl', hl₁, List.append_assoc, ← reduced_cons]

theorem slashDelegator_ok {r r' : State × Int} (hl : Single d (getDelegations r.1 a)) (hn : 0 ≤ n)
    (ho : n < o) (hb : amountTo d (getDelegations r.1 a) ≤ getStakedBalance r.1 a)
    (h : slashDelegator d n o r a = .ok r') :
    ∃ B D, r'.1 = { r.1 with stakedBalance := B, delegations := D } ∧
      (B.getD · 0) = Function.update (getStakedBalance r.1) a
        (getStakedBalance r.1 a - lost n o (amountTo d (getDelegations r.1 a))) ∧
      (D.getD · []) = Function.update (getDelegations r.1) a
        (reduced d n o (getDelegations r.1 a)) ∧
      r'.2 = r.2 + lost n o (amountTo d (getDelegations r.1 a)) := by
  simp only [slashDelegator, bind_ok, pure_ok] at h
  obtain ⟨x, hx, rfl⟩ := h
  obtain ⟨B, hs, hB, ht, hl'⟩ := slashDelegation_fold hl hn ho hb hx
  refine ⟨B, x.state.delegations.set a x.newDelegations, by rw [hs], hB, ?_, ht⟩
  funext a'
  rw [Store.getD_set, Function.update_apply, hl', hs]
  rfl

/-- The outer loop of `apply_delegatee_slash`, over the delegators of the delegatee. -/
theorem slashDelegator_fold {as : List Address} {r r' : State × Int}
    (h : as.foldlM (slashDelegator d n o) r = .ok r') (has : as.Nodup)
    (hl : ∀ a ∈ as, Single d (getDelegations r.1 a)) (hn : 0 ≤ n) (ho : n < o)
    (hb : ∀ a ∈ as, amountTo d (getDelegations r.1 a) ≤ getStakedBalance r.1 a) :
    ∃ B D, r'.1 = { r.1 with stakedBalance := B, delegations := D } ∧
      (∀ a, B.getD a 0 = if a ∈ as then
        getStakedBalance r.1 a - lost n o (amountTo d (getDelegations r.1 a))
        else getStakedBalance r.1 a) ∧
      (∀ a, D.getD a [] = if a ∈ as then
        reduced d n o (getDelegations r.1 a) else getDelegations r.1 a) ∧
      r'.2 = r.2 + (as.map fun a => lost n o (amountTo d (getDelegations r.1 a))).sum := by
  induction as generalizing r with
  | nil =>
    cases h
    exact ⟨r'.1.stakedBalance, r'.1.delegations, rfl, fun _ => rfl, fun _ => rfl,
      (add_zero _).symm⟩
  | cons a as ih =>
    obtain ⟨ha, has⟩ := List.nodup_cons.mp has
    simp only [List.foldlM_cons, bind_ok] at h
    obtain ⟨r₁, h₁, h⟩ := h
    obtain ⟨B₁, D₁, hs₁, hB₁, hD₁, ht₁⟩ :=
      slashDelegator_ok (hl a List.mem_cons_self) hn ho (hb a List.mem_cons_self) h₁
    have hB₁ : getStakedBalance r₁.1 = Function.update (getStakedBalance r.1) a
        (getStakedBalance r.1 a - lost n o (amountTo d (getDelegations r.1 a))) := by
      rw [hs₁]
      exact hB₁
    have hD₁ : getDelegations r₁.1 = Function.update (getDelegations r.1) a
        (reduced d n o (getDelegations r.1 a)) := by
      rw [hs₁]
      exact hD₁
    have hne (a') (h' : a' ∈ as) : a' ≠ a := fun he => ha (he ▸ h')
    have hm (a') (he : a' ≠ a) : a' ∈ a :: as ↔ a' ∈ as :=
      List.mem_cons.trans (or_iff_right he)
    have hBe (a') (h' : a' ∈ as) : getStakedBalance r₁.1 a' = getStakedBalance r.1 a' := by
      rw [hB₁, Function.update_of_ne (hne a' h')]
    have hDe (a') (h' : a' ∈ as) : getDelegations r₁.1 a' = getDelegations r.1 a' := by
      rw [hD₁, Function.update_of_ne (hne a' h')]
    obtain ⟨B, D, hs, hB, hD, ht⟩ := ih h has
      (fun a' h' => hDe a' h' ▸ hl a' (List.mem_cons_of_mem _ h'))
      (fun a' h' => by rw [hDe a' h', hBe a' h']; exact hb a' (List.mem_cons_of_mem _ h'))
    refine ⟨B, D, by rw [hs, hs₁], ?_, ?_, ?_⟩
    · intro a'
      rw [hB, hB₁, hD₁]
      by_cases he : a' = a
      · rw [he, if_neg ha, if_pos List.mem_cons_self, Function.update_self]
      · rw [Function.update_of_ne he, Function.update_of_ne he]
        exact if_congr (hm a' he).symm rfl rfl
    · intro a'
      rw [hD, hD₁]
      by_cases he : a' = a
      · rw [he, if_neg ha, if_pos List.mem_cons_self, Function.update_self]
      · rw [Function.update_of_ne he]
        exact if_congr (hm a' he).symm rfl rfl
    · rw [ht, ht₁, List.map_cons, List.sum_cons, ← add_assoc]
      congr 2
      apply List.map_congr_left
      intro a' h'
      rw [hDe a' h']

/-- What is left of a stake that is lowered, though never below zero. -/
def lowered (x delta : Int) : Int := if 0 < delta then max (x - delta) 0 else x

theorem lowerDelegateeStake_ok (h : lowerDelegateeStake d delta s = .ok s') :
    ∃ S, s' = { s with delegateeStake := S } ∧
      (S.getD · 0) = Function.update (getDelegateeStake s) d
        (lowered (getDelegateeStake s d) delta) := by
  unfold lowerDelegateeStake at h
  unfold lowered
  split at h <;> rename_i hd
  · simp only [bind_ok, i128Sub_ok, pure_ok] at h
    obtain ⟨_, ⟨_, rfl⟩, rfl⟩ := h
    refine ⟨_, rfl, ?_⟩
    funext d'
    rw [Store.getD_set, Function.update_apply, if_pos hd]
    rfl
  · cases pure_ok.mp h
    refine ⟨s.delegateeStake, rfl, ?_⟩
    rw [if_neg hd]
    exact (Function.update_eq_self _ _).symm

theorem trimDelegation_ok {r r' : State × List Delegation} (he : 0 ≤ e.amount) (hn : 0 ≤ n)
    (h : trimDelegation a n t r e = .ok r') :
    ∃ S R, r'.1 = { r.1 with delegateeStake := S, delegatorsOf := R } ∧
      (S.getD · 0) = Function.update (getDelegateeStake r.1) e.delegatee
        (lowered (getDelegateeStake r.1 e.delegatee) (e.amount - e.amount * n / t)) ∧
      (R.getD · []) = Function.update (getDelegatorsOf r.1) e.delegatee
        (if 0 < e.amount * n / t then getDelegatorsOf r.1 e.delegatee
        else (getDelegatorsOf r.1 e.delegatee).filter (· ≠ a)) ∧
      r'.2 = r.2 ++ rescale (fun e => e.amount * n / t) [e] := by
  simp only [trimDelegation, bind_ok, i128Mul_ok, i128Div_ok, i128Sub_ok] at h
  obtain ⟨_, ⟨_, rfl⟩, x, ⟨_, _, hx⟩, _, ⟨_, rfl⟩, s, hs, h⟩ := h
  rw [Int.tdiv_eq_ediv_of_nonneg (mul_nonneg he hn)] at hx
  obtain ⟨S, rfl, hS⟩ := lowerDelegateeStake_ok hs
  rw [rescale_singleton, hx]
  split at h <;> rename_i hp
  · cases pure_ok.mp h
    rw [if_pos hp, if_pos hp]
    refine ⟨S, r.1.delegatorsOf, rfl, hS, ?_, rfl⟩
    exact (Function.update_eq_self _ _).symm
  · cases pure_ok.mp h
    rw [if_neg hp, if_neg hp]
    refine ⟨S, _, rfl, hS, ?_, (List.append_nil _).symm⟩
    funext d
    rw [Store.getD_set, Function.update_apply]
    rfl

theorem trimDelegation_fold {r r' : State × List Delegation} (hl : Tidy l) (hn : 0 ≤ n)
    (ht : 0 < t) (h : l.foldlM (trimDelegation a n t) r = .ok r') :
    ∃ S R, r'.1 = { r.1 with delegateeStake := S, delegatorsOf := R } ∧
      (∀ d, S.getD d 0 = lowered (getDelegateeStake r.1 d)
        (amountTo d l - amountTo d (rescale (fun e => e.amount * n / t) l))) ∧
      (∀ d, R.getD d [] = if d ∈ l.map Delegation.delegatee ∧
          ¬ 0 < amountTo d (rescale (fun e => e.amount * n / t) l)
        then (getDelegatorsOf r.1 d).filter (· ≠ a) else getDelegatorsOf r.1 d) ∧
      r'.2 = r.2 ++ rescale (fun e => e.amount * n / t) l := by
  induction l generalizing r with
  | nil =>
    cases h
    exact ⟨r'.1.delegateeStake, r'.1.delegatorsOf, rfl, fun _ => rfl, fun _ => rfl,
      (List.append_nil _).symm⟩
  | cons e l ih =>
    have hp := hl.positive e List.mem_cons_self
    have hd := (List.nodup_cons.mp hl.nodup).1
    simp only [List.foldlM_cons, bind_ok] at h
    obtain ⟨r₁, h₁, h⟩ := h
    obtain ⟨S₁, R₁, hs₁, hS₁, hR₁, hl₁⟩ := trimDelegation_ok hp.le hn h₁
    obtain ⟨S, R, hs, hS, hR, hl'⟩ := ih hl.tail h
    have hS₁ : getDelegateeStake r₁.1 = Function.update (getDelegateeStake r.1) e.delegatee
        (lowered (getDelegateeStake r.1 e.delegatee) (e.amount - e.amount * n / t)) := by
      rw [hs₁]
      exact hS₁
    have hR₁ : getDelegatorsOf r₁.1 = Function.update (getDelegatorsOf r.1) e.delegatee
        (if 0 < e.amount * n / t then getDelegatorsOf r.1 e.delegatee
        else (getDelegatorsOf r.1 e.delegatee).filter (· ≠ a)) := by
      rw [hs₁]
      exact hR₁
    have hx := amountTo_rescale hl (fun e => e.amount * n / t) List.mem_cons_self
    rw [max_eq_left (Int.ediv_nonneg (mul_nonneg hp.le hn) ht.le)] at hx
    refine ⟨S, R, by rw [hs, hs₁], ?_, ?_, ?_⟩
    · intro d
      rw [hS, hS₁]
      by_cases he : d = e.delegatee
      · rw [he, Function.update_self, hx, hl.amountTo_mem List.mem_cons_self, amountTo_absent hd,
          amountTo_rescale_absent _ hd]
        rfl
      · rw [Function.update_of_ne he, amountTo_rescale_cons_of_ne (Ne.symm he), amountTo_cons,
          if_neg (Ne.symm he), zero_add]
    · intro d
      rw [hR, hR₁]
      by_cases he : d = e.delegatee
      · rw [he, Function.update_self, hx, if_neg fun hc => hd hc.1]
        by_cases hz : 0 < e.amount * n / t
        · rw [if_pos hz, if_neg fun hc => hc.2 hz]
        · rw [if_neg hz, if_pos ⟨List.mem_cons_self, hz⟩]
      · have hm : d ∈ (e :: l).map Delegation.delegatee ↔ d ∈ l.map Delegation.delegatee := by
          simp [he]
        rw [Function.update_of_ne he, amountTo_rescale_cons_of_ne (Ne.symm he)]
        exact if_congr (and_congr_left' hm.symm) rfl rfl
    · rw [hl', hl₁, List.append_assoc, ← rescale_append]
      rfl

end Shelterflex.StakeDelegation
