import Shelterflex.StakingRewards.Operations

namespace Shelterflex.StakingRewards
open Lib
set_option autoImplicit true

/-- How a call moves the reward entries, with what it funds and what it pays. -/
inductive Moves (s s' : State) : Int → Int → Prop where
  | keep : ledger s' = ledger s → getTotalStaked s' = getTotalStaked s →
      getPendingDust s' = getPendingDust s → getTotalFunded s' = getTotalFunded s →
      Moves s s' 0 0
  | write : 0 ≤ staked → paid ≤ (ledger s).claimable scale user →
      ledger s' = (ledger s).write scale user staked paid →
      getTotalStaked s' = getTotalStaked s + staked - (ledger s).share user →
      getPendingDust s' = getPendingDust s → getTotalFunded s' = getTotalFunded s →
      Moves s s' 0 paid
  | idle : 0 < amount → getTotalStaked s = 0 → ledger s' = ledger s →
      getTotalStaked s' = getTotalStaked s → getPendingDust s' = getPendingDust s →
      getTotalFunded s' = getTotalFunded s + amount → Moves s s' amount 0
  | spread : 0 < amount → getTotalStaked s ≠ 0 →
      ledger s' = (ledger s).raise (increment s amount) →
      getTotalStaked s' = getTotalStaked s →
      getPendingDust s' =
        amount + getPendingDust s - (increment s amount * getTotalStaked s).tdiv scale →
      getTotalFunded s' = getTotalFunded s + amount → Moves s s' amount 0

def Call.funds : Call → Int
  | .fundRewards amount => amount
  | .distributeRewards amount => amount
  | _ => 0

theorem Call.funds_of_not_moves (h : Call.moves c = false) : c.funds = 0 := by
  cases c with
  | fundRewards _ | distributeRewards _ => cases h
  | _ => rfl

theorem Funds.moves (h : Funds amount s s') : Moves s s' amount 0 := by
  cases h with
  | idle ha ht hs =>
    subst hs
    exact .idle ha ht rfl rfl rfl rfl
  | spread ha ht hs =>
    subst hs
    exact .spread ha ht rfl rfl rfl rfl

theorem Writes.moves (h : Writes user staked paid s s') (hs : 0 ≤ staked)
    (hp : paid ≤ (ledger s).claimable scale user) : Moves s s' 0 paid :=
  .write hs hp h.books h.total h.dust h.funded

theorem Changes.moves (hb : Books s) (h : Changes s s' c o) : Moves s s' c.funds o.paid := by
  have hn := hb.wellFormed.share_nonneg
  have hc := hb.wellFormed.claimable_nonneg scale_pos
  cases h with
  | stake ha hw => exact hw.moves (add_nonneg (hn _) ha.le) (hc _)
  | unstake ha hle hw => exact hw.moves (sub_nonneg.mpr hle) (hc _)
  | fundRewards hf => exact hf.moves
  | distributeRewards hf => exact hf.moves
  | claim hw => exact hw.moves (hn _) le_rfl
  | keep hk ho hl ht hd hf =>
    rw [Call.funds_of_not_moves hk, ho]
    exact .keep hl ht hd hf

theorem invoke_moves (hb : Books s) (h : invoke env s c = some (s', o)) :
    Moves s s' c.funds o.paid := (invoke_changes hb h).moves hb

/-- The part of a distribution's index weight that is also kept as dust, in units of one part in
`scale`. -/
def doubled (s : State) (amount : Int) : Int :=
  increment s amount * getTotalStaked s % scale

theorem increment_eq (hb : Books s) (ha : 0 < amount) :
    increment s amount = (amount + getPendingDust s) * scale / getTotalStaked s :=
  Int.tdiv_eq_ediv_of_nonneg
    (mul_nonneg (add_nonneg ha.le hb.dust_nonneg) scale_pos.le)

theorem Books.total_nonneg (hb : Books s) : 0 ≤ getTotalStaked s := by
  rw [hb.total]
  exact finsum_nonneg hb.wellFormed.share_nonneg

theorem increment_nonneg (hb : Books s) (ha : 0 < amount) : 0 ≤ increment s amount := by
  rw [increment_eq hb ha]
  exact Int.ediv_nonneg (mul_nonneg (add_nonneg ha.le hb.dust_nonneg) scale_pos.le) hb.total_nonneg

theorem committed_eq (hb : Books s) (ha : 0 < amount) :
    (increment s amount * getTotalStaked s).tdiv scale * scale =
      increment s amount * getTotalStaked s - doubled s amount := by
  rw [Int.tdiv_eq_ediv_of_nonneg (mul_nonneg (increment_nonneg hb ha) hb.total_nonneg), doubled]
  have h := Int.emod_add_mul_ediv (increment s amount * getTotalStaked s) scale
  have hc := mul_comm scale (increment s amount * getTotalStaked s / scale)
  omega

theorem committed_le (hb : Books s) (ha : 0 < amount) :
    (increment s amount * getTotalStaked s).tdiv scale ≤ amount + getPendingDust s := by
  have hc := committed_eq hb ha
  have hd : 0 ≤ doubled s amount := Int.emod_nonneg _ scale_pos.ne'
  have hle : increment s amount * getTotalStaked s ≤ (amount + getPendingDust s) * scale := by
    rw [increment_eq hb ha]
    rcases hb.total_nonneg.lt_or_eq with ht | ht
    · exact Int.ediv_mul_le _ ht.ne'
    · rw [← ht, mul_zero]
      exact mul_nonneg (add_nonneg ha.le hb.dust_nonneg) scale_pos.le
  exact le_of_mul_le_mul_right (by omega) scale_pos

theorem Moves.books (hb : Books s) (h : Moves s s' funded paid) : Books s' := by
  cases h with
  | keep hl ht hd _ => exact ⟨hl ▸ hb.wellFormed, by rw [ht, hl, hb.total], hd ▸ hb.dust_nonneg⟩
  | @write staked paid user hs hp hl ht hd _ =>
    refine ⟨hl ▸ hb.wellFormed.write scale_pos user hs hp, ?_, hd ▸ hb.dust_nonneg⟩
    rw [ht, hl, RewardIndex.sum_share_write hb.wellFormed, hb.total]
    omega
  | idle ha _ hl ht hd _ =>
    exact ⟨hl ▸ hb.wellFormed, by rw [ht, hl, hb.total], hd ▸ hb.dust_nonneg⟩
  | spread ha hn hl ht hd _ =>
    refine ⟨hl ▸ hb.wellFormed.raise (increment_nonneg hb ha), ?_, ?_⟩
    · rw [ht, hl, hb.total]
      rfl
    · have hc := committed_le hb ha
      omega

/-- The remainder of the index division is a whole number of tokens, so that no part of the
distribution is both credited to the index and kept as dust. -/
def DividesEvenly (s : State) (amount : Int) : Prop :=
  getTotalStaked s ≠ 0 → (amount + getPendingDust s) * scale % getTotalStaked s % scale = 0

instance : Decidable (DividesEvenly s amount) := inferInstanceAs (Decidable (_ → _))

theorem doubled_eq_zero_iff (hb : Books s) (ha : 0 < amount) :
    doubled s amount = 0 ↔
      (amount + getPendingDust s) * scale % getTotalStaked s % scale = 0 := by
  rw [doubled, increment_eq hb ha, ← Int.dvd_iff_emod_eq_zero, ← Int.dvd_iff_emod_eq_zero]
  have h := Int.emod_add_mul_ediv ((amount + getPendingDust s) * scale) (getTotalStaked s)
  have hx : scale ∣ (amount + getPendingDust s) * scale := Int.dvd_mul_left _ _
  rw [← h, mul_comm (getTotalStaked s)] at hx
  exact ⟨fun hd => (Int.dvd_add_left hd).mp hx, fun hd => (Int.dvd_add_right hd).mp hx⟩

/-- What the contract still owes: to its users, and to the next distribution. -/
noncomputable def outstanding (s : State) : Int :=
  (ledger s).potential scale + scale * getPendingDust s

/-- A distribution adds to what is owed the amount funded and the part credited twice. -/
theorem outstanding_spread (hb : Books s) (ha : 0 < amount)
    (hl : ledger s' = (ledger s).raise (increment s amount))
    (hd : getPendingDust s' =
      amount + getPendingDust s - (increment s amount * getTotalStaked s).tdiv scale) :
    outstanding s' = outstanding s + scale * amount + doubled s amount := by
  have hc := committed_eq hb ha
  rw [outstanding, outstanding, hl, hd, RewardIndex.potential_raise hb.wellFormed, ← hb.total]
  linarith

theorem Moves.outstanding_le (hb : Books s) (h : Moves s s' funded paid)
    (hx : 0 < funded → DividesEvenly s funded) :
    outstanding s' + scale * paid + scale * getTotalFunded s ≤
      outstanding s + scale * getTotalFunded s' := by
  cases h with
  | keep hl _ hd hf =>
    simp only [outstanding, hl, hd, hf]
    omega
  | @write staked paid user hs hp hl _ hd hf =>
    have hw := RewardIndex.potential_write hb.wellFormed scale_pos user hs paid
    simp only [outstanding, hl, hd, hf]
    omega
  | idle ha _ hl _ hd hf =>
    simp only [outstanding, hl, hd, hf]
    linarith [mul_pos scale_pos ha]
  | spread ha hn hl _ hd hf =>
    have ho := outstanding_spread hb ha hl hd
    have hz := (doubled_eq_zero_iff hb ha).mpr (hx ha hn)
    rw [ho, hz, hf]
    linarith

def paid (t : List (Event State (Env own × Call) Output)) : Int :=
  (t.map fun e => e.output.paid).sum

theorem fresh_books : Books .fresh where
  wellFormed :=
    { share_nonneg := fun _ => le_rfl
      banked_nonneg := fun _ => le_rfl
      snapshot_le := fun _ => le_rfl
      share_finite := (ledger_finite _).1
      banked_finite := (ledger_finite _).2 }
  total := finsum_zero.symm
  dust_nonneg := le_rfl

theorem run_books (h : (machine own).Run .fresh t s) : Books s :=
  h.invariant (P := fun _ => Books) fresh_books fun hb he => (invoke_moves hb he).books hb

theorem run_outstanding (h : (machine own).Run .fresh t s)
    (hC : ∀ e ∈ t, 0 < e.input.2.funds → DividesEvenly e.pre e.input.2.funds) :
    Books s ∧ outstanding s + scale * paid t ≤ scale * getTotalFunded s := by
  refine h.invariant_of (P := fun t s => Books s ∧ outstanding s + scale * paid t ≤
    scale * getTotalFunded s) hC ⟨fresh_books, ?_⟩ ?_
  · have hp : (ledger .fresh).potential scale = 0 := finsum_zero
    rw [outstanding, hp]
    exact le_refl (0 : Int)
  · rintro t s i s' o ⟨hb, ho⟩ he hx
    have hm := invoke_moves hb he
    have hle := hm.outstanding_le hb hx
    refine ⟨hm.books hb, ?_⟩
    simp only [paid, List.map_cons, List.sum_cons] at ho ⊢
    linarith

theorem Books.sum_claimableView_le (hb : Books s) :
    scale * ∑ᶠ u, claimableView s u ≤ (ledger s).potential scale := by
  rw [mul_comm]
  exact hb.wellFormed.sum_view_mul_le scale_pos (claimableView_cases hb.wellFormed)

/-- While every distribution divides evenly, users can never draw more than was funded. -/
theorem claimable_within_funded (h : (machine own).Run .fresh t s)
    (hC : ∀ e ∈ t, 0 < e.input.2.funds → DividesEvenly e.pre e.input.2.funds) :
    ∑ᶠ u, claimableView s u + paid t ≤ getTotalFunded s := by
  obtain ⟨hb, ho⟩ := run_outstanding h hC
  have hc := hb.sum_claimableView_le
  have hd := mul_nonneg scale_pos.le hb.dust_nonneg
  rw [outstanding] at ho
  exact le_of_mul_le_mul_left (by linarith) scale_pos

def evenCalls : List (Env ⟨0⟩ × Call) :=
  [(.signed ⟨0⟩ 0, .init ⟨1⟩), (.signed ⟨0⟩ 0, .stake ⟨2⟩ 4), (.signed ⟨0⟩ 0, .distributeRewards 6),
    (.signed ⟨0⟩ 0, .claim ⟨2⟩)]

theorem claimable_within_funded_even :
    ∑ᶠ u, claimableView ((machine ⟨0⟩).replay .fresh evenCalls).2 u +
        paid ((machine ⟨0⟩).replay .fresh evenCalls).1 ≤
      getTotalFunded ((machine ⟨0⟩).replay .fresh evenCalls).2 :=
  claimable_within_funded ((machine ⟨0⟩).run_replay .fresh evenCalls) (by decide)

/-- Three distributions of one token over a stake of three. -/
def unevenCalls : List (Env ⟨0⟩ × Call) :=
  [(.signed ⟨0⟩ 0, .init ⟨1⟩), (.signed ⟨0⟩ 0, .stake ⟨2⟩ 3), (.signed ⟨0⟩ 0, .distributeRewards 1),
    (.signed ⟨0⟩ 0, .distributeRewards 1), (.signed ⟨0⟩ 0, .distributeRewards 1)]

theorem claimable_exceeds_funded :
    ¬ ∀ t s, (machine ⟨0⟩).Run .fresh t s →
      ∑ᶠ u, claimableView s u + paid t ≤ getTotalFunded s := by
  intro hall
  have hr := (machine ⟨0⟩).run_replay .fresh unevenCalls
  have hw := (run_books hr).wellFormed
  have hle := hall _ _ hr
  have hu := le_finsum (claimableView_finite hw) (claimableView_nonneg hw) ⟨2⟩
  have hv : claimableView ((machine ⟨0⟩).replay .fresh unevenCalls).2 ⟨2⟩ = 4 := by decide
  have hf : getTotalFunded ((machine ⟨0⟩).replay .fresh unevenCalls).2 = 3 := by decide
  have hp : paid ((machine ⟨0⟩).replay .fresh unevenCalls).1 = 0 := by decide
  omega

end Shelterflex.StakingRewards
