import Shelterflex.MvpStakingPool.Ledger

/-! What a successful call writes. -/

namespace Shelterflex.MvpStakingPool
open Lib
set_option autoImplicit true

/-- What holds of the pool's books in every reachable state. -/
structure Books (s : State) : Prop where
  wellFormed : (ledger s).WellFormed
  total : getTotalStaked s = ∑ᶠ u, (ledger s).share u

/-- One account was settled, its stake set, and it was paid from what it had banked. -/
structure Writes (user : Address) (staked paid : Int) (s s' : State) : Prop where
  books : ledger s' = (ledger s).write rewardIndexScale user staked paid
  total : getTotalStaked s' = getTotalStaked s - getStakedBalance s user + staked

/-- What every call leaves as it needs it: the token, the lock and a total that fits its type. -/
structure Steady (s s' : State) : Prop where
  token : s'.token = s.token
  reentrancy : s'.reentrancy = exit ∨ s'.reentrancy = s.reentrancy
  total : InI128 (getTotalStaked s') ∨ getTotalStaked s' = getTotalStaked s

theorem Steady.refl (s : State) : Steady s s := ⟨rfl, .inr rfl, .inr rfl⟩

/-- The calls that move the books. -/
def Call.moves : Call → Bool
  | .stake _ _ => true
  | .unstake _ _ => true
  | .utilizeStake _ _ _ => true
  | .fundRewards _ _ => true
  | .claimable _ => true
  | .claim _ => true
  | _ => false

/-- What a successful call does to the books and to the used stakes, and what it returns. -/
inductive Changes (s s' : State) : Call → Output → Prop where
  | stake (ha : 0 < amount) (hw : Writes user (getStakedBalance s user + amount) 0 s s')
      (hu : getUsedStake s' = getUsedStake s) : Changes s s' (.stake user amount) .unit
  | unstake (ha : 0 < amount) (hle : amount ≤ getStakedBalance s user - getUsedStake s user)
      (hw : Writes user (getStakedBalance s user - amount) 0 s s')
      (hu : getUsedStake s' = getUsedStake s) : Changes s s' (.unstake user amount) .unit
  | utilizeStake (ha : 0 < amount) (hle : amount ≤ getStakedBalance s user - getUsedStake s user)
      (hw : Writes user (getStakedBalance s user) 0 s s')
      (hu : getUsedStake s' =
        Function.update (getUsedStake s) user (getUsedStake s user + amount)) :
      Changes s s' (.utilizeStake admin user amount) .unit
  | fundRewards (ha : 0 < amount) (hpos : 0 < getTotalStaked s)
      (hl : ledger s' = (ledger s).raise (amount * rewardIndexScale / getTotalStaked s))
      (ht : getTotalStaked s' = getTotalStaked s) (hu : getUsedStake s' = getUsedStake s) :
      Changes s s' (.fundRewards source amount) .unit
  | claimable (hw : Writes user (getStakedBalance s user) 0 s s')
      (hu : getUsedStake s' = getUsedStake s) :
      Changes s s' (.claimable user) (.amount ((ledger s).claimable rewardIndexScale user))
  | claim (hw : Writes user (getStakedBalance s user)
        ((ledger s).claimable rewardIndexScale user) s s')
      (hu : getUsedStake s' = getUsedStake s) :
      Changes s s' (.claim user) (.amount ((ledger s).claimable rewardIndexScale user))
  | keep (hc : c.moves = false) (hl : ledger s' = ledger s)
      (ht : getTotalStaked s' = getTotalStaked s) (hu : getUsedStake s' = getUsedStake s) :
      Changes s s' c o

theorem transfer_ok {tok : Token T} {env : Env own}
    (h : (transfer tok env s t source target n : Outcome ε T) = .ok t') :
    ∃ auth, tok.transfer t auth source target n = some t' := by
  simp only [transfer, bind_ok, Token.call_ok] at h
  obtain ⟨_, _, ht⟩ := h
  exact ⟨_, ht⟩

theorem enterNonreentrant_ok :
    enterNonreentrant s = .ok s' ↔
      s.reentrancy.getD false = false ∧ { s with reentrancy := some true } = s' := by
  simp only [enterNonreentrant, bind_ok, enter_ok, pure_ok]
  constructor
  · rintro ⟨_, ⟨hl, rfl⟩, rfl⟩
    exact ⟨hl, rfl⟩
  · rintro ⟨hl, rfl⟩
    exact ⟨_, ⟨hl, rfl⟩, rfl⟩

section
variable {own : Address} {tok : Token T} {env : Env own} {w w' : World T}

theorem Books.accrued (hb : Books s)
    (h : (accrueUserRewards user { s with reentrancy := lock } : Outcome ε State) = .ok s₁) :
    Accrued user s s₁ :=
  have hA := accrueUserRewards_ok h hb.wellFormed
  ⟨hA.books, hA.total, hA.used, hA.token⟩

theorem accrueUserRewards_reentrancy
    (h : (accrueUserRewards user s : Outcome ε State) = .ok s') : s'.reentrancy = s.reentrancy := by
  unfold accrueUserRewards at h
  split at h
  · rw [pure_ok.mp h]
  · obtain ⟨s₁, hs, h⟩ := bind_ok.mp h
    cases pure_ok.mp h
    unfold bankAccrued at hs
    split at hs
    · simp only [bind_ok] at hs
      obtain ⟨_, _, _, _, _, _, hs⟩ := hs
      split at hs
      · obtain ⟨_, _, hs⟩ := bind_ok.mp hs
        cases pure_ok.mp hs
        rfl
      · cases pure_ok.mp hs
        rfl
    · cases pure_ok.mp hs
      rfl

/-- A call that settles an account and leaves its stake as it is. -/
theorem Accrued.writes (h : Accrued user s s₁) (hl : ledger s' = ledger s₁)
    (ht : getTotalStaked s' = getTotalStaked s₁) :
    Writes user (getStakedBalance s user) 0 s s' where
  books := by
    rw [hl, h.books]
    exact RewardIndex.write_settle _ user
  total := by rw [sub_add_cancel, ht, h.total]

theorem stake_ok (hb : Books w.pool) (h : stake tok env user amount w = .ok w') :
    env.authorized user = true ∧
      (∃ auth, tok.transfer w.token auth user own amount = some w'.token) ∧
      Changes w.pool w'.pool (.stake user amount) .unit ∧ Steady w.pool w'.pool := by
  simp only [stake, bind_ok, orPanic_ok, enterNonreentrant_ok, requireAuth_ok, requireNotPaused,
    requirePositiveAmount, demand_ok, i128Add_ok, pure_ok] at h
  obtain ⟨_, ⟨_, rfl⟩, _, ha, _, _, _, hp, s₁, hs, _, ⟨_, rfl⟩, _, ⟨hr, rfl⟩, t, ht, rfl⟩ := h
  have hA := hb.accrued hs
  have hc := congrFun hA.share_eq user
  refine ⟨ha, transfer_ok ht, .stake hp ⟨?_, ?_⟩ hA.used, hA.token, .inl rfl, .inl hr⟩
  · rw [← hc, ← RewardIndex.write_share, ← hA.books]
    exact ledger_setBalance s₁ user _
  · have htotal : getTotalStaked s₁ + amount = getTotalStaked w.pool -
        getStakedBalance w.pool user + (getStakedBalance w.pool user + amount) := by
      rw [hA.total]
      ring
    exact htotal

theorem unstake_ok (hb : Books w.pool) (h : unstake tok env user amount w = .ok w') :
    env.authorized user = true ∧
      (∃ auth, tok.transfer w.token auth own user amount = some w'.token) ∧
      Changes w.pool w'.pool (.unstake user amount) .unit ∧ Steady w.pool w'.pool := by
  simp only [unstake, bind_ok, enterNonreentrant_ok, requireAuth_ok, requireNotPaused,
    requirePositiveAmount, demand_ok, require_ok, i128Sub_ok, pure_ok] at h
  obtain ⟨_, ⟨_, rfl⟩, _, ha, _, _, _, hp, s₁, hs, _, hle, _, ⟨_, rfl⟩, _, ⟨hr, rfl⟩, t, ht,
    rfl⟩ := h
  have hA := hb.accrued hs
  have hc := congrFun hA.share_eq user
  have hle' := le_sub_of_saturating hp hle
  rw [hc, hA.used] at hle'
  refine ⟨ha, transfer_ok ht, .unstake hp hle' ⟨?_, ?_⟩ hA.used, hA.token, .inl rfl, .inl hr⟩
  · rw [← hc, ← RewardIndex.write_share, ← hA.books]
    exact ledger_setBalance s₁ user _
  · have htotal : getTotalStaked s₁ - amount = getTotalStaked w.pool -
        getStakedBalance w.pool user + (getStakedBalance w.pool user - amount) := by
      rw [hA.total]
      ring
    exact htotal

theorem utilizeStake_ok (hb : Books s) (h : utilizeStake env admin user amount s = .ok s') :
    Changes s s' (.utilizeStake admin user amount) .unit ∧ Steady s s' := by
  simp only [utilizeStake, bind_ok, requirePositiveAmount, demand_ok, require_ok, i128Add_ok,
    pure_ok] at h
  obtain ⟨_, _, _, _, _, _, _, hp, s₁, hs, _, hle, _, ⟨_, rfl⟩, rfl⟩ := h
  have hA := accrueUserRewards_ok hs hb.wellFormed
  have hr := accrueUserRewards_reentrancy hs
  have hle' := le_sub_of_saturating hp hle
  rw [hA.share_eq, hA.used] at hle'
  have hn := add_nonneg (getUsedStake_nonneg s₁ user) hp.le
  have hu := getUsedStake_putUsedStake hn s₁ user
  obtain ⟨used, hf⟩ := putUsedStake_frame user (getUsedStake s₁ user + amount) s₁
  have ht : getTotalStaked (putUsedStake user (getUsedStake s₁ user + amount) s₁) =
      getTotalStaked s₁ := by rw [hf]; rfl
  rw [hA.used] at hu
  refine ⟨.utilizeStake hp hle' (hA.writes (by rw [hf]; rfl) ht) (hA.used ▸ hu), ?_⟩
  exact ⟨by rw [hf]; exact hA.token, .inr (by rw [hf]; exact hr), .inr (ht.trans hA.total)⟩

theorem claimable_ok (hb : Books s) (h : claimable user s = .ok (s', n)) :
    Changes s s' (.claimable user) (.amount n) ∧ Steady s s' := by
  simp only [claimable, bind_ok, pure_ok, Prod.mk.injEq] at h
  obtain ⟨s₁, hs, rfl, rfl⟩ := h
  have hA := accrueUserRewards_ok hs hb.wellFormed
  rw [hA.banked_eq]
  exact ⟨.claimable (hA.writes rfl rfl) hA.used,
    hA.token, .inr (accrueUserRewards_reentrancy hs), .inr hA.total⟩

theorem claim_ok (hb : Books w.pool) (h : claim tok env target w = .ok (w', n)) :
    env.authorized target = true ∧
      (n = 0 ∧ w'.token = w.token ∨
        ∃ auth, tok.transfer w.token auth own target n = some w'.token) ∧
      Changes w.pool w'.pool (.claim target) (.amount n) ∧ Steady w.pool w'.pool := by
  simp only [claim, bind_ok, orPanic_ok, enterNonreentrant_ok, requireAuth_ok, requireNotPaused,
    demand_ok] at h
  obtain ⟨_, ⟨_, rfl⟩, _, ha, _, _, s₁, hs, h⟩ := h
  have hA := hb.accrued hs
  have hc : getClaimableReward s₁ target = (ledger w.pool).claimable rewardIndexScale target :=
    hA.banked_eq
  split at h
  · rename_i hle
    cases pure_ok.mp h
    have hz : (ledger w.pool).claimable rewardIndexScale target = 0 :=
      le_antisymm (hc ▸ hle) (hb.wellFormed.claimable_nonneg rewardIndexScale_pos target)
    have hw : Writes target (getStakedBalance w.pool target) 0 w.pool (exitNonreentrant s₁) :=
      hA.writes rfl rfl
    rw [← hz] at hw ⊢
    exact ⟨ha, .inl ⟨rfl, rfl⟩, .claim hw hA.used, hA.token, .inl rfl, .inr hA.total⟩
  · simp only [bind_ok, pure_ok, Prod.mk.injEq] at h
    obtain ⟨t, ht, rfl, rfl⟩ := h
    refine ⟨ha, .inr (transfer_ok ht), ?_, hA.token, .inl rfl, .inr hA.total⟩
    rw [hc]
    refine .claim ⟨?_, ?_⟩ hA.used
    · rw [← hc]
      exact (ledger_setReward s₁ target).trans
        (by rw [hA.books]; exact RewardIndex.write_withdraw _ target _)
    · rw [sub_add_cancel]
      exact hA.total

theorem fundRewards_ok (h : fundRewards tok env source amount w = .ok w') :
    env.authorized source = true ∧
      (∃ auth, tok.transfer w.token auth source own amount = some w'.token) ∧
      Changes w.pool w'.pool (.fundRewards source amount) .unit ∧ Steady w.pool w'.pool := by
  simp only [fundRewards, bind_ok, orPanic_ok, requireAdminAuth, requireAuth_ok, requireNotPaused,
    requirePositiveAmount, demand_ok, i128Add_ok, i128Mul_ok, i128Div_ok, pure_ok,
    enterNonreentrant_ok] at h
  obtain ⟨_, ⟨_, rfl⟩, admin, _, _, ha, _, _, _, hp, _, rfl, _, hpos, t, ht, _, ⟨_, rfl⟩,
    _, ⟨_, _, rfl⟩, _, ⟨_, rfl⟩, rfl⟩ := h
  refine ⟨ha, transfer_ok ht, .fundRewards hp hpos ?_ rfl rfl, rfl, .inl rfl, .inr rfl⟩
  rw [← Int.tdiv_eq_ediv_of_nonneg (mul_nonneg hp.le rewardIndexScale_pos.le)]
  rfl

theorem invoke_changes (hb : Books w.pool) (h : invoke tok env w c = some (w', o)) :
    Changes w.pool w'.pool c o ∧ Steady w.pool w'.pool := by
  cases c with
  | stake user amount =>
    obtain ⟨_, hs, he⟩ := commit_some.mp h
    cases he
    exact (stake_ok hb hs).2.2
  | unstake user amount =>
    obtain ⟨_, hs, he⟩ := commit_some.mp h
    cases he
    exact (unstake_ok hb hs).2.2
  | utilizeStake admin user amount =>
    obtain ⟨_, hs, he⟩ := commit_some.mp h
    cases he
    exact utilizeStake_ok hb hs
  | fundRewards source amount =>
    obtain ⟨_, hs, he⟩ := commit_some.mp h
    cases he
    exact (fundRewards_ok hs).2.2
  | claimable user =>
    obtain ⟨_, hs, he⟩ := commit_some.mp h
    cases he
    exact claimable_ok hb hs
  | claim target =>
    obtain ⟨_, hs, he⟩ := commit_some.mp h
    cases he
    exact (claim_ok hb hs).2.2
  | setGuardian _ _ | setUpgradeDelay _ _ | proposeUpgrade _ _ | cancelUpgrade _ =>
    obtain ⟨_, hs, he⟩ := commit_some.mp h
    cases he
    simp only [setGuardian, setUpgradeDelay, proposeUpgrade, cancelUpgrade, bind_ok,
      pure_ok] at hs
    obtain ⟨_, _, rfl⟩ := hs
    exact ⟨.keep rfl rfl rfl rfl, rfl, .inr rfl, .inr rfl⟩
  | executeUpgrade _ _ | emergencyUpgrade _ _ =>
    obtain ⟨_, hs, he⟩ := commit_some.mp h
    cases he
    simp only [executeUpgrade, emergencyUpgrade, bind_ok, pure_ok] at hs
    obtain ⟨_, _, rfl⟩ := hs
    exact ⟨.keep rfl rfl rfl rfl, rfl, .inr rfl, .inr rfl⟩
  | pause _ | unpause _ =>
    obtain ⟨_, hs, he⟩ := commit_some.mp h
    cases he
    simp only [pause, unpause, bind_ok, pure_ok] at hs
    obtain ⟨_, _, _, _, rfl⟩ := hs
    exact ⟨.keep rfl rfl rfl rfl, rfl, .inr rfl, .inr rfl⟩

theorem Writes.share (h : Writes user staked paid s s') :
    getStakedBalance s' = Function.update (getStakedBalance s) user staked :=
  congrArg RewardIndex.share h.books

theorem Writes.snapshot (h : Writes user staked paid s s') :
    getUserRewardIndex s' =
      Function.update (getUserRewardIndex s) user (getGlobalRewardIndex s) :=
  congrArg RewardIndex.snapshot h.books

theorem Writes.banked (h : Writes user staked paid s s') :
    getClaimableReward s' = Function.update (getClaimableReward s) user
      ((ledger s).claimable rewardIndexScale user - paid) := by
  refine (congrArg RewardIndex.banked h.books).trans ?_
  simp only [RewardIndex.write, RewardIndex.withdraw, RewardIndex.setShare, RewardIndex.settle,
    Function.update_self, Function.update_idem]
  rfl

theorem Writes.index (h : Writes user staked paid s s') :
    getGlobalRewardIndex s' = getGlobalRewardIndex s := congrArg RewardIndex.index h.books

theorem Writes.keeps (h : Writes user staked paid s s') (hb : Books s) (hs : 0 ≤ staked)
    (hp : paid ≤ (ledger s).claimable rewardIndexScale user) : Books s' where
  wellFormed := h.books ▸ hb.wellFormed.write rewardIndexScale_pos user hs hp
  total := by
    rw [h.total, h.books, RewardIndex.sum_share_write hb.wellFormed, hb.total]
    rfl

theorem Changes.books (h : Changes s s' c o) (hb : Books s) : Books s' := by
  have hn := hb.wellFormed.share_nonneg
  have hc (user) := hb.wellFormed.claimable_nonneg rewardIndexScale_pos user
  cases h with
  | stake ha hw hu => exact hw.keeps hb (add_nonneg (hn _) ha.le) (hc _)
  | unstake ha hle hw hu =>
    refine hw.keeps hb ?_ (hc _)
    have hused := getUsedStake_nonneg s
    exact sub_nonneg.mpr (hle.trans (sub_le_self _ (hused _)))
  | utilizeStake ha hle hw hu => exact hw.keeps hb (hn _) (hc _)
  | fundRewards ha hpos hl ht hu =>
    refine ⟨hl ▸ hb.wellFormed.raise ?_, by rw [ht, hl, hb.total]; rfl⟩
    exact Int.ediv_nonneg (mul_nonneg ha.le rewardIndexScale_pos.le) hpos.le
  | claimable hw hu => exact hw.keeps hb (hn _) (hc _)
  | claim hw hu => exact hw.keeps hb (hn _) le_rfl
  | keep hc hl ht hu => exact ⟨hl ▸ hb.wellFormed, by rw [ht, hl, hb.total]⟩

theorem initialized_books (admin token : Address) : Books (initialized admin token) where
  wellFormed :=
    { share_nonneg := fun _ => le_rfl
      banked_nonneg := fun _ => le_rfl
      snapshot_le := fun _ => le_rfl
      share_finite := (Store.empty : Store Address Int).support_finite fun _ _ => rfl
      banked_finite := (Store.empty : Store Address Int).support_finite fun _ _ => rfl }
  total := finsum_zero.symm

theorem act_books {a : Action own T} (hb : Books w.pool) (h : act tok w a = some (w', o)) :
    Books w'.pool := by
  cases a with
  | traffic t =>
    simp only [act, Option.ite_none_right_eq_some, Option.some.injEq, Prod.mk.injEq] at h
    obtain ⟨_, rfl, _⟩ := h
    exact hb
  | call env c => exact (invoke_changes hb h).1.books hb

theorem run_books
    (h : (machine tok own).Run ⟨initialized admin token, t₀⟩ t w) : Books w.pool :=
  h.invariant (P := fun _ w => Books w.pool) (initialized_books admin token) act_books

end

end Shelterflex.MvpStakingPool
