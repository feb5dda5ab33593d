import Shelterflex.Lib.Rounding
import Shelterflex.StakeDelegation.Agreement

/-! A slash of a delegatee takes its share from every delegator, rounded up. -/

namespace Shelterflex.StakeDelegation
open Lib Book
set_option autoImplicit true

theorem amountTo_reduced (hl : Single d l) (hn : 0 ≤ n) (ho : 0 < o) :
    amountTo d (reduced d n o l) = amountTo d l * n / o := by
  induction l with
  | nil => rw [reduced, List.flatMap_nil, amountTo_nil, zero_mul, Int.zero_ediv]
  | cons e l ih =>
    rw [reduced_cons, amountTo_append, ih hl.tail, amountTo_cons]
    by_cases he : e.delegatee = d
    · have hq := Int.ediv_nonneg (mul_nonneg (hl.nonneg e List.mem_cons_self he) hn) ho.le
      rw [amountTo_absent (hl.absent he), reduced_of_eq he, if_pos he, zero_mul, Int.zero_ediv,
        add_zero, add_zero]
      split
      · exact (amountTo_singleton ..).trans (if_pos he)
      · exact le_antisymm hq (not_lt.mp ‹_›)
    · rw [reduced_of_ne he, amountTo_singleton, if_neg he, zero_add, zero_add]

theorem filter_reduced (d : Address) (n o : Int) (l : List Delegation) :
    (reduced d n o l).filter (·.delegatee ≠ d) = l.filter (·.delegatee ≠ d) := by
  induction l with
  | nil => rfl
  | cons e l ih =>
    rw [reduced_cons, List.filter_append, ih]
    by_cases he : e.delegatee = d
    · rw [reduced_of_eq he]
      split
      · simp [he]
      · simp [he]
    · rw [reduced_of_ne he, ← List.filter_append]
      rfl

theorem reduced_absent (h : d ∉ l.map Delegation.delegatee) (n o : Int) : reduced d n o l = l := by
  induction l with
  | nil => rfl
  | cons e l ih =>
    simp only [List.map_cons, List.mem_cons, not_or] at h
    rw [reduced_cons, reduced_of_ne (Ne.symm h.1), ih h.2]
    rfl

theorem any_reduced (d : Address) (n o : Int) (l : List Delegation) :
    (reduced d n o l).any (·.delegatee = d) = decide (amountTo d (reduced d n o l) ≠ 0) := by
  have hpos : ∀ e ∈ reduced d n o l, e.delegatee = d → 0 < e.amount := by
    intro e he hd
    obtain ⟨x, _, hx⟩ := List.mem_flatMap.mp he
    split at hx
    · rw [rescale_singleton] at hx
      split at hx
      · rw [List.mem_singleton.mp hx]
        assumption
      · cases hx
    · rw [List.mem_singleton.mp hx] at hd
      exact absurd hd ‹_›
  apply Bool.eq_iff_iff.mpr
  simp only [List.any_eq_true, decide_eq_true_eq]
  constructor
  · rintro ⟨e, he, hd⟩
    have hall : ∀ x ∈ (reduced d n o l).map fun e => if e.delegatee = d then e.amount else 0,
        0 ≤ x := by
      intro x hx
      obtain ⟨y, hy, rfl⟩ := List.mem_map.mp hx
      split
      · exact (hpos y hy ‹_›).le
      · exact le_rfl
    have hle := List.single_le_sum hall _ (List.mem_map_of_mem he)
    rw [if_pos hd] at hle
    exact ((hpos e he hd).trans_le hle).ne'
  · intro hne
    by_contra hno
    apply hne
    apply amountTo_absent
    intro hd
    obtain ⟨e, he, hed⟩ := List.mem_map.mp hd
    exact hno ⟨e, he, hed⟩

namespace Book

/-- The stake of a delegatee is what its delegators, each listed once and none beyond its balance,
delegate to it. -/
structure Accounted (b : Book) (d : Address) : Prop where
  stake : b.stake d = ((b.delegators d).map (b.position · d)).sum
  listed : ∀ a, a ∈ b.delegators d ↔ ∃ e ∈ b.delegations a, e.delegatee = d
  nodup : (b.delegators d).Nodup
  covered : ∀ a, b.position a d ≤ b.balance a

/-- What a delegator loses of its delegation to `d`. -/
def taken (b b' : Book) (d a : Address) : Int := b.position a d - b'.position a d

/-- A slash of `d` by `n` takes from every delegator its share, rounded up. -/
structure SlashesShares (b b' : Book) (d : Address) (n : Int) : Prop where
  share : ∀ a ∈ b.delegators d, (b.position a d * n / b.stake d : ℚ) ≤ b.taken b' d a ∧
    (b.taken b' d a : ℚ) < b.position a d * n / b.stake d + 1
  balance : ∀ a, b'.balance a = b.balance a - b.taken b' d a
  total : b'.total = b.total - ((b.delegators d).map (b.taken b' d)).sum
  amount : n ≤ ((b.delegators d).map (b.taken b' d)).sum ∧
    ((b.delegators d).map (b.taken b' d)).sum < n + (b.delegators d).length
  residue : 0 ≤ b'.stake d - ((b.delegators d).map (b'.position · d)).sum ∧
    b'.stake d - ((b.delegators d).map (b'.position · d)).sum ≤ (b.delegators d).length - 1
  delegators : b'.delegators d = (b.delegators d).filter fun a => b'.position a d ≠ 0
  unlisted : ∀ a ∉ b.delegators d, b'.delegations a = b.delegations a
  untouched : ∀ a, (b'.delegations a).filter (·.delegatee ≠ d) =
    (b.delegations a).filter (·.delegatee ≠ d)
  others : ∀ d', d' ≠ d → b'.stake d' = b.stake d' ∧ b'.delegators d' = b.delegators d'

theorem lost_bounds {x n S : Int} (hS : 0 < S) :
    (x * n / S : ℚ) ≤ lost (S - n) S x ∧ (lost (S - n) S x : ℚ) < x * n / S + 1 := by
  have hdiv := Int.mul_ediv_add_emod (x * (S - n)) S
  have hr := Int.emod_nonneg (x * (S - n)) hS.ne'
  have hr' := Int.emod_lt_of_pos (x * (S - n)) hS
  have he : lost (S - n) S x * S = x * n + x * (S - n) % S := by
    rw [lost]
    linarith
  have hS' : (0 : ℚ) < S := Int.cast_pos.mpr hS
  have he' : (lost (S - n) S x * S : ℚ) = x * n + (x * (S - n) % S : Int) := by exact_mod_cast he
  rw [div_le_iff₀ hS', ← sub_lt_iff_lt_add, lt_div_iff₀ hS', sub_mul, he', one_mul]
  have hr₁ : (0 : ℚ) ≤ (x * (S - n) % S : Int) := Int.cast_nonneg hr
  have hr₂ : ((x * (S - n) % S : Int) : ℚ) < S := Int.cast_lt.mpr hr'
  constructor <;> linarith

theorem Accounted.single {b : Book} (h : b.Accounted d)
    (hs : ∀ a ∈ b.delegators d, Single d (b.delegations a)) (a : Address) :
    Single d (b.delegations a) := by
  by_cases ha : a ∈ b.delegators d
  · exact hs a ha
  · have hno : ∀ e ∈ b.delegations a, e.delegatee ≠ d := fun e he hd =>
      ha ((h.listed a).mpr ⟨e, he, hd⟩)
    refine ⟨?_, fun e he hd => absurd hd (hno e he)⟩
    rw [List.countP_eq_zero.mpr fun e he => by simpa using hno e he]
    exact zero_le_one

theorem Accounted.sum_taken {b : Book} (h : b.Accounted d) (b' : Book) :
    ((b.delegators d).map (b.taken b' d)).sum =
      b.stake d - ((b.delegators d).map (b'.position · d)).sum := by
  have hadd := List.sum_map_add (l := b.delegators d) (f := b.taken b' d) (g := (b'.position · d))
  simp only [taken, sub_add_cancel] at hadd
  rw [h.stake, hadd]
  exact (add_sub_cancel_right _ _).symm

theorem Accounted.delegators_ne_nil {b : Book} (h : b.Accounted d) (hS : 0 < b.stake d) :
    b.delegators d ≠ [] := by
  intro hnil
  have hz := h.stake
  rw [hnil, List.map_nil, List.sum_nil] at hz
  omega

/-- Positions that are scaled to a new stake and rounded down add up to it, short of less than one
for each delegator. -/
theorem Accounted.kept_bounds {b b' : Book} {m : Int} (h : b.Accounted d)
    (hs : ∀ a ∈ b.delegators d, Single d (b.delegations a)) (hS : 0 < b.stake d) (hm : 0 ≤ m)
    (hpos : ∀ a, b'.position a d = b.position a d * m / b.stake d) :
    0 ≤ ((b.delegators d).map (b'.position · d)).sum ∧
      ((b.delegators d).map (b'.position · d)).sum ≤ m ∧
      m < ((b.delegators d).map (b'.position · d)).sum + (b.delegators d).length := by
  have hlist : (b.delegators d).map (b'.position · d) =
      ((b.delegators d).map fun a => b.position a d * m).map (· / b.stake d) := by
    rw [List.map_map]
    exact List.map_congr_left fun a _ => hpos a
  have hb := list_ediv_bounds hS (List.map_eq_nil_iff.not.mpr (h.delegators_ne_nil hS) :
    (b.delegators d).map (fun a => b.position a d * m) ≠ [])
  rw [← hlist, List.sum_map_mul_right, ← h.stake, List.length_map] at hb
  refine ⟨?_, le_of_mul_le_mul_left hb.1 hS, lt_of_mul_lt_mul_left hb.2 hS.le⟩
  apply List.sum_nonneg
  intro x hx
  obtain ⟨a, _, rfl⟩ := List.mem_map.mp hx
  rw [hpos]
  exact Int.ediv_nonneg (mul_nonneg (h.single hs a).amountTo_nonneg hm) hS.le

theorem Accounted.shares {b b' : Book} (h : b.Accounted d)
    (hs : ∀ a ∈ b.delegators d, Single d (b.delegations a)) (ht : b.stake d ≤ b.total)
    (hn : 0 < n) (hle : n ≤ b.stake d)
    (h₁ : ∀ a, b'.delegations a = reduced d (b.stake d - n) (b.stake d) (b.delegations a))
    (h₂ : ∀ a, b'.balance a = b.balance a - lost (b.stake d - n) (b.stake d) (b.position a d))
    (h₃ : b'.stake = Function.update b.stake d (b.stake d - n))
    (h₄ : b'.delegators = Function.update b.delegators d
      ((b.delegators d).filter fun a => (b'.delegations a).any (·.delegatee = d)))
    (h₅ : b'.total = max (b.total - ((b.delegators d).map fun a =>
      lost (b.stake d - n) (b.stake d) (b.position a d)).sum) 0) :
    b.SlashesShares b' d n := by
  have hS : 0 < b.stake d := hn.trans_le hle
  have hm : 0 ≤ b.stake d - n := sub_nonneg.mpr hle
  have hpos (a) : b'.position a d = b.position a d * (b.stake d - n) / b.stake d := by
    rw [position, h₁]
    exact amountTo_reduced (h.single hs a) hm hS
  have htaken (a) : b.taken b' d a = lost (b.stake d - n) (b.stake d) (b.position a d) := by
    rw [taken, hpos, lost]
  have hsum := h.sum_taken b'
  obtain ⟨hkept₀, hkept, hkept'⟩ := h.kept_bounds hs hS hm hpos
  have hd : b'.stake d = b.stake d - n := by rw [h₃, Function.update_self]
  have hlost : ((b.delegators d).map fun a =>
      lost (b.stake d - n) (b.stake d) (b.position a d)).sum =
        ((b.delegators d).map (b.taken b' d)).sum :=
    congrArg List.sum (List.map_congr_left fun a _ => (htaken a).symm)
  refine ⟨fun a _ => ?_, fun a => ?_, ?_, ⟨by omega, by omega⟩, ⟨?_, ?_⟩, ?_, fun a ha => ?_,
    fun a => ?_, fun d' hd' => ⟨?_, ?_⟩⟩
  · rw [htaken]
    exact lost_bounds hS
  · rw [htaken, h₂]
  · rw [h₅, hlost]
    exact max_eq_left (by omega)
  · omega
  · omega
  · rw [h₄, Function.update_self]
    refine List.filter_congr fun a _ => ?_
    rw [position, h₁]
    exact any_reduced ..
  · rw [h₁]
    apply reduced_absent
    intro hd'
    exact ha ((h.listed a).mpr (List.mem_map.mp hd'))
  · rw [h₁]
    exact filter_reduced ..
  · rw [h₃, Function.update_of_ne hd']
  · rw [h₄, Function.update_of_ne hd']

/-- Of what a slash relies on, only the stakes are not a matter of course. -/
theorem Valid.accounted {b : Book} (h : b.Valid) (hb : b.Balanced)
    (hs : b.stake d = ((b.delegators d).map (b.position · d)).sum) :
    b.Accounted d ∧ (∀ a ∈ b.delegators d, Single d (b.delegations a)) ∧ b.stake d ≤ b.total := by
  refine ⟨⟨hs, fun a => ?_, h.nodup d, fun a => h.position_le a d⟩,
    fun a _ => (h.tidy a).single d, ?_⟩
  · exact (h.listed a d).trans ((h.tidy a).amountTo_pos_iff.trans List.mem_map)
  · have hzero (a) (ha : a ∉ b.delegators d) : b.position a d = 0 :=
      le_antisymm (not_lt.mp ((h.listed a d).not.mp ha)) (h.position_nonneg a d)
    rw [hs, ← finsum_eq_list_sum (h.nodup d) hzero, hb]
    exact finsum_le_finsum' (h.position_finite d) h.finite fun a => h.position_le a d

end Book

/-- `apply_delegatee_slash` takes from each delegator its share of the slash, rounded up. -/
theorem slash_takes_shares (ha : (book s).Accounted d)
    (hs : ∀ a ∈ getDelegatorsOf s d, Single d (getDelegations s a))
    (ht : getDelegateeStake s d ≤ getTotalStaked s)
    (h : applyDelegateeSlash env slashAuthority d n s = .ok s') :
    (book s).SlashesShares (book s') d n := by
  simp only [applyDelegateeSlash, bind_ok, require_ok, i128Sub_ok, pure_ok,
    settlePendingFor_eq] at h
  obtain ⟨_, _, _, _, _, _, _, hn, _, hle, s₁, hset, _, ⟨_, rfl⟩, ⟨r, y⟩, hr, _, ⟨_, rfl⟩, h⟩ := h
  have hb := settleFor_settles hset
  rw [← hb.stake] at hle hr
  change ∀ a ∈ (book s).delegators d, Single d ((book s).delegations a) at hs
  change (book s).stake d ≤ (book s).total at ht
  rw [← hb.book] at ha hs ht ⊢
  have hm : 0 ≤ getDelegateeStake s₁ d - n := sub_nonneg.mpr hle
  obtain ⟨B, D, rfl, hB, hD, hy⟩ := slashDelegator_fold hr ha.nodup hs hm (sub_lt_self _ hn)
    fun a _ => ha.covered a
  have habs (a) (hmem : a ∉ getDelegatorsOf s₁ d) :
      d ∉ (getDelegations s₁ a).map Delegation.delegatee := fun hd =>
    hmem ((ha.listed a).mpr (List.mem_map.mp hd))
  have hD' (a) : D.getD a [] =
      reduced d (getDelegateeStake s₁ d - n) (getDelegateeStake s₁ d) (getDelegations s₁ a) := by
    rw [hD]
    by_cases hmem : a ∈ getDelegatorsOf s₁ d
    · exact if_pos hmem
    · exact (if_neg hmem).trans (reduced_absent (habs a hmem) _ _).symm
  subst h
  refine ha.shares hs ht hn hle hD' (fun a => (hB a).trans ?_) (Store.getD_set_update ..)
    (Store.getD_set_update ..) ?_
  · by_cases hmem : a ∈ getDelegatorsOf s₁ d
    · exact if_pos hmem
    · refine (if_neg hmem).trans ?_
      rw [position, show amountTo d ((book s₁).delegations a) = 0 from
        amountTo_absent (habs a hmem), lost_zero, sub_zero]
      rfl
  · rw [hy, zero_add]
    rfl

theorem slash_takes_shares_uneven : ∃ s s' : State,
    applyDelegateeSlash (.signed ⟨0⟩ 0 : Env ⟨0⟩) ⟨5⟩ ⟨9⟩ 40 s = .ok s' ∧
      getDelegatorsOf s ⟨9⟩ = [⟨2⟩, ⟨3⟩] ∧ (book s).SlashesShares (book s') ⟨9⟩ 40 := by
  have hr := (machine ⟨0⟩).run_replay .fresh (evenSlashCalls.take 7)
  have hb := run_balanced hr (by decide)
  obtain ⟨ha, hs, ht⟩ := (run_valid hr).accounted hb (d := ⟨9⟩) (by decide)
  have h : applyDelegateeSlash (.signed ⟨0⟩ 0 : Env ⟨0⟩) ⟨5⟩ ⟨9⟩ 40
      ((machine ⟨0⟩).replay .fresh (evenSlashCalls.take 7)).2 = .ok _ := rfl
  exact ⟨_, _, h, by decide, slash_takes_shares ha hs ht h⟩

/-- Two delegators of one delegatee, with the amounts that each delegates. -/
def twoDelegators (l l' : List Int) (supply : Int) : State :=
  { initialized ⟨1⟩ 100 with
    delegations := (Store.empty.set ⟨2⟩ (l.map fun x => ⟨⟨9⟩, x, 1⟩)).set ⟨3⟩
      (l'.map fun x => ⟨⟨9⟩, x, 1⟩)
    stakedBalance := (Store.empty.set ⟨2⟩ 100).set ⟨3⟩ 100
    totalStaked := some supply
    delegateeStake := Store.empty.set ⟨9⟩ (l.sum + l'.sum)
    slashingAuthority := some ⟨5⟩
    delegatorsOf := Store.empty.set ⟨9⟩ [⟨2⟩, ⟨3⟩] }

theorem amountTo_map (l : List Int) : amountTo ⟨9⟩ (l.map fun x => ⟨⟨9⟩, x, 1⟩) = l.sum := by
  simp [amountTo, List.map_map, Function.comp_def]

theorem twoDelegators_accounted (hl : l ≠ []) (hl' : l' ≠ []) (hs : l.sum ≤ 100)
    (hs' : l'.sum ≤ 100) : (book (twoDelegators l l' supply)).Accounted ⟨9⟩ := by
  have hentry {l : List Int} (hl : l ≠ []) :
      ∃ e ∈ l.map fun x => (⟨⟨9⟩, x, 1⟩ : Delegation), e.delegatee = ⟨9⟩ := by
    obtain ⟨x, hx⟩ := List.exists_mem_of_ne_nil l hl
    exact ⟨_, List.mem_map_of_mem hx, rfl⟩
  have hthree : getDelegations (twoDelegators l l' supply) ⟨3⟩ = l'.map fun x => ⟨⟨9⟩, x, 1⟩ := rfl
  have htwo : getDelegations (twoDelegators l l' supply) ⟨2⟩ = l.map fun x => ⟨⟨9⟩, x, 1⟩ := rfl
  have hother (a) (h₂ : a ≠ ⟨2⟩) (h₃ : a ≠ ⟨3⟩) :
      getDelegations (twoDelegators l l' supply) a = [] ∧
        getStakedBalance (twoDelegators l l' supply) a = 0 := by
    simp only [getDelegations, getStakedBalance, twoDelegators, Store.getD_set_of_ne _ _ _ h₂,
      Store.getD_set_of_ne _ _ _ h₃]
    exact ⟨rfl, rfl⟩
  have hnodup : ([⟨2⟩, ⟨3⟩] : List Address).Nodup := by decide
  refine ⟨?_, fun a => ?_, hnodup, fun a => ?_⟩
  · change l.sum + l'.sum = amountTo ⟨9⟩ (l.map fun x => ⟨⟨9⟩, x, 1⟩) +
      (amountTo ⟨9⟩ (l'.map fun x => ⟨⟨9⟩, x, 1⟩) + 0)
    rw [amountTo_map, amountTo_map, add_zero]
  · change a ∈ [⟨2⟩, ⟨3⟩] ↔ ∃ e ∈ getDelegations (twoDelegators l l' supply) a, _
    by_cases h₂ : a = ⟨2⟩
    · subst h₂
      exact iff_of_true (by decide) (htwo ▸ hentry hl)
    · by_cases h₃ : a = ⟨3⟩
      · subst h₃
        exact iff_of_true (by decide) (hthree ▸ hentry hl')
      · rw [(hother a h₂ h₃).1]
        simp [h₂, h₃]
  · change amountTo ⟨9⟩ (getDelegations (twoDelegators l l' supply) a) ≤
      getStakedBalance (twoDelegators l l' supply) a
    by_cases h₂ : a = ⟨2⟩
    · subst h₂
      rw [htwo, amountTo_map]
      exact hs
    · by_cases h₃ : a = ⟨3⟩
      · subst h₃
        rw [hthree, amountTo_map]
        exact hs'
      · rw [(hother a h₂ h₃).1, (hother a h₂ h₃).2]
        rfl

/-- The shares go wrong where the total is too small, where one delegator has several delegations
to the delegatee, and where one of them is negative. -/
theorem slash_misses_shares :
    (¬ ∀ (s s' : State) (n : Int), (book s).Accounted ⟨9⟩ →
      (∀ a ∈ getDelegatorsOf s ⟨9⟩, Single ⟨9⟩ (getDelegations s a)) →
      applyDelegateeSlash (.signed ⟨0⟩ 0 : Env ⟨0⟩) ⟨5⟩ ⟨9⟩ n s = .ok s' →
      (book s).SlashesShares (book s') ⟨9⟩ n) ∧
    (¬ ∀ (s s' : State) (n : Int), (book s).Accounted ⟨9⟩ →
      (∀ a ∈ getDelegatorsOf s ⟨9⟩, ∀ e ∈ getDelegations s a, 0 ≤ e.amount) →
      getDelegateeStake s ⟨9⟩ ≤ getTotalStaked s →
      applyDelegateeSlash (.signed ⟨0⟩ 0 : Env ⟨0⟩) ⟨5⟩ ⟨9⟩ n s = .ok s' →
      (book s).SlashesShares (book s') ⟨9⟩ n) ∧
    ¬ ∀ (s s' : State) (n : Int), (book s).Accounted ⟨9⟩ →
      (∀ a ∈ getDelegatorsOf s ⟨9⟩, (getDelegations s a).countP (·.delegatee = ⟨9⟩) ≤ 1) →
      getDelegateeStake s ⟨9⟩ ≤ getTotalStaked s →
      applyDelegateeSlash (.signed ⟨0⟩ 0 : Env ⟨0⟩) ⟨5⟩ ⟨9⟩ n s = .ok s' →
      (book s).SlashesShares (book s') ⟨9⟩ n := by
  refine ⟨fun hall => ?_, fun hall => ?_, fun hall => ?_⟩
  · have ha : (book (twoDelegators [10] [10] 0)).Accounted ⟨9⟩ :=
      twoDelegators_accounted (by decide) (by decide) (by decide) (by decide)
    have hs : ∀ a ∈ getDelegatorsOf (twoDelegators [10] [10] 0) ⟨9⟩,
        Single ⟨9⟩ (getDelegations (twoDelegators [10] [10] 0) a) := by
      intro a hmem
      exact ⟨by revert a; decide, by revert a; decide⟩
    exact absurd (hall _ _ 4 ha hs rfl).total (by decide)
  · have ha : (book (twoDelegators [1, 1, 1] [1] 100)).Accounted ⟨9⟩ :=
      twoDelegators_accounted (by decide) (by decide) (by decide) (by decide)
    exact absurd (hall _ _ 1 ha (by decide) (by decide) rfl).amount.2 (by decide)
  · have ha : (book (twoDelegators [-4] [7] 100)).Accounted ⟨9⟩ :=
      twoDelegators_accounted (by decide) (by decide) (by decide) (by decide)
    exact absurd ((hall _ _ 1 ha (by decide) (by decide) rfl).balance ⟨2⟩) (by decide)

end Shelterflex.StakeDelegation
