import Shelterflex.MvpStakingPool.Partition

/-! All users can leave the pool, in any order. -/

namespace Shelterflex.MvpStakingPool
open Lib
set_option autoImplicit true

/-- An account of a user in the pool, with the tokens that the user holds. -/
@[ext]
structure Account where
  staked : Int
  used : Int
  claimable : Int
  tokens : Int
deriving DecidableEq

def account (tok : Token T) (w : World T) (user : Address) : Account where
  staked := getStakedBalance w.pool user
  used := getUsedStake w.pool user
  claimable := getClaimableReward w.pool user + unaccrued w.pool user / rewardIndexScale
  tokens := tok.balance w.token user

def Account.withdraw (amount : Int) (a : Account) : Account :=
  { a with staked := a.staked - amount, tokens := a.tokens + amount }

def Account.draw (a : Account) : Account :=
  { a with claimable := 0, tokens := a.tokens + a.claimable }

/-- All but the used stake is paid out. -/
def Account.exit (a : Account) : Account := (a.withdraw (a.staked - a.used)).draw

/-- The state of a pool whose users can leave. -/
structure Solid (tok : Token T) (own : Address) (w : World T) : Prop where
  books : Books w.pool
  ready : Ready w.pool
  partitioned : Partitioned w.pool
  liable : liability w.pool ≤ rewardIndexScale * tok.balance w.token own
  small : rewardIndexScale * tok.balance w.token own < 2 ^ 127
  running : w.pool.paused.getD false = false

/-- Nothing that a user earned overflows while what the pool owes fits its type. -/
theorem Solid.accrualFits (h : Solid tok own w) (user : Address) : AccrualFits w.pool user := by
  have hw := h.books.wellFormed
  have howed : (ledger w.pool).owed rewardIndexScale user < 2 ^ 127 := by
    have hp := hw.owed_le rewardIndexScale_pos user
    have ht : 0 ≤ rewardIndexScale * getTotalStaked w.pool := by
      rw [h.books.total]
      exact mul_nonneg rewardIndexScale_pos.le (finsum_nonneg hw.share_nonneg)
    have hl := h.liable
    have hs := h.small
    rw [liability] at hl
    omega
  have hn : 0 ≤ unaccrued w.pool user := hw.accrued_nonneg user
  have hb : 0 ≤ getClaimableReward w.pool user := hw.banked_nonneg user
  have hsplit : (ledger w.pool).owed rewardIndexScale user =
      getClaimableReward w.pool user * rewardIndexScale + unaccrued w.pool user := rfl
  have hle : getClaimableReward w.pool user ≤ getClaimableReward w.pool user * rewardIndexScale :=
    le_mul_of_one_le_right hb (by decide)
  have hq : 0 ≤ unaccrued w.pool user / rewardIndexScale := Int.ediv_nonneg hn (by decide)
  have hd : unaccrued w.pool user / rewardIndexScale ≤ unaccrued w.pool user :=
    Int.ediv_le_self _ hn
  exact ⟨⟨by omega, by omega⟩, .inr ⟨by omega, by omega⟩⟩

theorem accrueUserRewards_frame (h : (accrueUserRewards user s : Outcome ε State) = .ok s') :
    ∃ rewards indexes, s' = { s with claimableReward := rewards, userRewardIndex := indexes } := by
  unfold accrueUserRewards at h
  split at h
  · exact ⟨_, _, (pure_ok.mp h).symm⟩
  · obtain ⟨s₁, hs, h⟩ := bind_ok.mp h
    cases pure_ok.mp h
    unfold bankAccrued at hs
    split at hs
    · simp only [bind_ok] at hs
      obtain ⟨_, _, _, _, _, _, hs⟩ := hs
      split at hs
      · obtain ⟨_, _, hs⟩ := bind_ok.mp hs
        cases pure_ok.mp hs
        exact ⟨_, _, rfl⟩
      · cases pure_ok.mp hs
        exact ⟨_, _, rfl⟩
    · cases pure_ok.mp hs
      exact ⟨_, _, rfl⟩

section
variable {tok : Token T} {own : Address} {env : Env own} {w w' : World T}

theorem unstake_paused (h : unstake tok env user amount w = .ok w') :
    w'.pool.paused = w.pool.paused := by
  simp only [unstake, bind_ok, enterNonreentrant_ok, pure_ok] at h
  obtain ⟨_, ⟨_, rfl⟩, _, _, _, _, _, _, s₁, hs, _, _, _, _, _, _, t, _, rfl⟩ := h
  obtain ⟨_, _, rfl⟩ := accrueUserRewards_frame hs
  rfl

theorem claim_paused (h : claim tok env target w = .ok (w', n)) :
    w'.pool.paused = w.pool.paused := by
  simp only [claim, bind_ok, orPanic_ok, enterNonreentrant_ok] at h
  obtain ⟨_, ⟨_, rfl⟩, _, _, _, _, s₁, hs, h⟩ := h
  obtain ⟨_, _, rfl⟩ := accrueUserRewards_frame hs
  split at h
  · cases pure_ok.mp h
    rfl
  · obtain ⟨_, _, h⟩ := bind_ok.mp h
    cases pure_ok.mp h
    rfl

theorem claim_enabled (hh : tok.Honours) (h : Solid tok own w)
    (ha : env.authorized target = true) :
    ∃ w', claim tok env target w =
      .ok (w', (ledger w.pool).claimable rewardIndexScale target) := by
  have hfits : (∃ s₁, (accrueUserRewards target { w.pool with reentrancy := some true } :
      Outcome ContractError State) = .ok s₁) ↔ AccrualFits w.pool target :=
    accrueUserRewards_isOk_iff h.books.wellFormed
  obtain ⟨s₁, hs₁⟩ := hfits.mpr (h.accrualFits target)
  have hA := h.books.accrued hs₁
  have hc : getClaimableReward s₁ target = (ledger w.pool).claimable rewardIndexScale target :=
    hA.banked_eq
  have hbal := (h.books.covered h.liable).claimable_le h.books target
  obtain ⟨token, hk⟩ := Option.ne_none_iff_exists'.mp h.ready.token
  simp only [claim, bind_ok, orPanic_ok, enterNonreentrant_ok, requireAuth_ok, requireNotPaused,
    demand_ok]
  by_cases hle : getClaimableReward s₁ target ≤ 0
  · have hz := h.books.wellFormed.claimable_nonneg rewardIndexScale_pos target
    refine ⟨⟨exitNonreentrant s₁, w.token⟩, _, ⟨h.ready.reentrancy, rfl⟩, (), ha, (), h.running,
      s₁, hs₁, ?_⟩
    rw [if_pos hle, ← hc, le_antisymm hle (hc ▸ hz)]
    rfl
  · have hpay : ∃ t, (tok.call env w.token own target (getClaimableReward s₁ target) :
        Outcome ContractError T) = .ok t :=
      hh.pay env target (not_le.mp hle).le (hc ▸ hbal)
    obtain ⟨t, hpay⟩ := hpay
    refine ⟨⟨exitNonreentrant { s₁ with claimableReward := s₁.claimableReward.set target 0 }, t⟩,
      _, ⟨h.ready.reentrancy, rfl⟩, (), ha, (), h.running, s₁, hs₁, ?_⟩
    rw [if_neg hle, ← hc]
    simp only [bind_ok, transfer, expect_ok, pure_ok]
    exact ⟨t, ⟨token, hA.token.trans hk, hpay⟩, rfl⟩

theorem Solid.step (hx : tok.Exact) (h : Solid tok own w) (hi : invoke tok env w c = some (w', o))
    (hc : c.inflow o ≤ 0) (hp : w'.pool.paused = w.pool.paused) : Solid tok own w' := by
  obtain ⟨hch, hst⟩ := invoke_changes h.books hi
  have hbal := invoke_balance hx h.books hi
  have hle : rewardIndexScale * tok.balance w'.token own ≤
      rewardIndexScale * tok.balance w.token own :=
    mul_le_mul_of_nonneg_left (by omega) rewardIndexScale_pos.le
  exact ⟨hch.books h.books, hst.ready h.ready, hch.partitioned h.partitioned,
    invoke_liability hx h.books h.liable hi, hle.trans_lt h.small, hp ▸ h.running⟩

theorem Writes.account (hw : Writes user staked paid w.pool w'.pool)
    (hused : getUsedStake w'.pool = getUsedStake w.pool)
    (ht : tok.balance w'.token u = tok.balance w.token u + if u = user then n else 0) :
    account tok w' u = if u = user then
      { MvpStakingPool.account tok w u with
        staked
        claimable := (MvpStakingPool.account tok w u).claimable - paid
        tokens := (MvpStakingPool.account tok w u).tokens + n }
      else MvpStakingPool.account tok w u := by
  have hs : getStakedBalance w'.pool u =
      Function.update (getStakedBalance w.pool) user staked u := congrFun hw.share u
  have hu : getUsedStake w'.pool u = getUsedStake w.pool u := congrFun hused u
  have hc : (ledger w'.pool).claimable rewardIndexScale u =
      Function.update ((ledger w.pool).claimable rewardIndexScale) user
        ((ledger w.pool).claimable rewardIndexScale user - paid) u := by
    rw [hw.books, RewardIndex.claimable_write]
  by_cases he : u = user
  · subst he
    rw [Function.update_self] at hs hc
    rw [if_pos rfl] at ht ⊢
    exact Account.ext hs hu hc ht
  · rw [Function.update_of_ne he] at hs hc
    rw [if_neg he, add_zero] at ht
    rw [if_neg he]
    exact Account.ext hs hu hc ht

theorem balance_paid (hx : tok.Exact) (ht : tok.transfer t auth own user n = some t')
    (hu : u ≠ own) : tok.balance t' u = tok.balance t u + if u = user then n else 0 := by
  rw [hx ht u, if_neg hu, sub_zero]

/-- A withdrawal of unused stake reaches its user, and nobody else. -/
theorem unstake_exits (hx : tok.Exact) (hh : tok.Honours) (h : Solid tok own w)
    (ha : env.authorized user = true) (hpos : 0 < amount)
    (hle : amount ≤ getStakedBalance w.pool user - getUsedStake w.pool user) :
    ∃ w', invoke tok env w (.unstake user amount) = some (w', .unit) ∧ Solid tok own w' ∧
      ∀ u, u ≠ own → account tok w' u =
        if u = user then (account tok w u).withdraw amount else account tok w u := by
  have hc := (h.books.covered h.liable).stake_le h.books user
  obtain ⟨w', hu⟩ := (unstake_isOk_iff hh h.books h.ready h.partitioned hc ha h.running hpos).mpr
    ⟨hle, h.accrualFits user⟩
  obtain ⟨_, ⟨_, ht⟩, hch, _⟩ := unstake_ok h.books hu
  have hi : invoke tok env w (.unstake user amount) = some (w', .unit) :=
    commit_some.mpr ⟨w', hu, rfl⟩
  refine ⟨w', hi, h.step hx hi (neg_nonpos.mpr hpos.le) (unstake_paused hu), fun u hne => ?_⟩
  cases hch with
  | keep hk => cases hk
  | unstake _ _ hw hused =>
    rw [hw.account hused (balance_paid hx ht hne)]
    split
    · rename_i he
      subst he
      exact Account.ext rfl rfl (sub_zero _) rfl
    · rfl

theorem claim_exits (hx : tok.Exact) (hh : tok.Honours) (h : Solid tok own w)
    (ha : env.authorized user = true) :
    ∃ w' o, invoke tok env w (.claim user) = some (w', o) ∧ Solid tok own w' ∧
      ∀ u, u ≠ own → account tok w' u =
        if u = user then (account tok w u).draw else account tok w u := by
  obtain ⟨w', hu⟩ := claim_enabled hh h ha
  obtain ⟨_, ht, hch, _⟩ := claim_ok h.books hu
  have hi : invoke tok env w (.claim user) =
      some (w', .amount ((ledger w.pool).claimable rewardIndexScale user)) :=
    commit_some.mpr ⟨_, hu, rfl⟩
  have hn := h.books.wellFormed.claimable_nonneg rewardIndexScale_pos user
  refine ⟨w', _, hi, h.step hx hi (neg_nonpos.mpr hn) (claim_paused hu), fun u hne => ?_⟩
  have hpaid : tok.balance w'.token u = tok.balance w.token u +
      if u = user then (ledger w.pool).claimable rewardIndexScale user else 0 := by
    rcases ht with ⟨hz, ht⟩ | ⟨_, ht⟩
    · rw [hz, ht, ite_self, add_zero]
    · exact balance_paid hx ht hne
  cases hch with
  | keep hk => cases hk
  | claim hw hused =>
    rw [hw.account hused hpaid]
    split
    · rename_i he
      subst he
      exact Account.ext rfl rfl (sub_self _) rfl
    · rfl

/-- A call by which a user leaves the pool. -/
def Leaves (env : Address → Env own) (user : Address)
    (e : Event (World T) (Action own T) Output) : Prop :=
  (∃ amount, e.input = .call (env user) (.unstake user amount)) ∨
    e.input = .call (env user) (.claim user)

theorem exit_run {env : Address → Env own} (hx : tok.Exact) (hh : tok.Honours)
    (h : Solid tok own w) (ha : (env user).authorized user = true) :
    ∃ t w', (machine tok own).Run w t w' ∧ Solid tok own w' ∧ (∀ e ∈ t, Leaves env user e) ∧
      ∀ u, u ≠ own → account tok w' u =
        if u = user then (account tok w u).exit else account tok w u := by
  have hunstake : ∃ t w', (machine tok own).Run w t w' ∧ Solid tok own w' ∧
      (∀ e ∈ t, Leaves env user e) ∧ ∀ u, u ≠ own → account tok w' u = if u = user then
        (account tok w u).withdraw ((account tok w u).staked - (account tok w u).used)
        else account tok w u := by
    rcases (sub_nonneg.mpr (h.partitioned user)).lt_or_eq with hpos | hz
    · obtain ⟨w', hi, hs, hv⟩ := unstake_exits hx hh h ha hpos le_rfl
      have hstep : (machine tok own).step w (.call (env user) (.unstake user
          (getStakedBalance w.pool user - getUsedStake w.pool user))) = some (w', .unit) := hi
      refine ⟨_, w', .commit .start hstep, hs, List.forall_mem_singleton.mpr (.inl ⟨_, rfl⟩), ?_⟩
      intro u hne
      rw [hv u hne]
      split
      · rename_i he
        subst he
        rfl
      · rfl
    · refine ⟨[], w, .start, h, List.forall_mem_nil _, fun u _ => ?_⟩
      split
      · rename_i he
        subst he
        have hz : (account tok w u).staked - (account tok w u).used = 0 := hz.symm
        rw [hz]
        exact Account.ext (sub_zero _).symm rfl rfl (add_zero _).symm
      · rfl
  obtain ⟨t, w₁, hr, hs₁, ht, hv₁⟩ := hunstake
  obtain ⟨w', o, hi, hs, hv⟩ := claim_exits hx hh hs₁ ha
  have hstep : (machine tok own).step w₁ (.call (env user) (.claim user)) = some (w', o) := hi
  refine ⟨_, w', .commit hr hstep, hs, List.forall_mem_cons.mpr ⟨.inr rfl, ht⟩, fun u hne => ?_⟩
  rw [hv u hne, hv₁ u hne]
  split
  · rfl
  · rfl

/-- No run on the pool: while what it holds is small enough for its numbers, any users can leave
one after the other, in any order, and each gets its unused stake and all its rewards. -/
theorem everyone_exits (hx : tok.Exact) (hh : tok.Honours) (h₀ : 0 ≤ tok.balance t₀ own)
    (h : (machine tok own).Run ⟨initialized admin token, t₀⟩ t w)
    (hn : w.pool.paused.getD false = false)
    (hsmall : rewardIndexScale * tok.balance w.token own < 2 ^ 127)
    (users : List Address) (hd : users.Nodup) (env : Address → Env own)
    (ha : ∀ user ∈ users, (env user).authorized user = true) :
    ∃ t' w', (machine tok own).Run w t' w' ∧ Machine.InTurn (Leaves env) users t' ∧
      ∀ u, u ≠ own → account tok w' u =
        if u ∈ users then (account tok w u).exit else account tok w u := by
  obtain ⟨hb, hl⟩ := run_liability hx h₀ h
  obtain ⟨_, hr, hp, _⟩ := run_partitioned h
  have hsolid : Solid tok own w := ⟨hb, hr, hp, hl, hsmall, hn⟩
  obtain ⟨t', w', hrun, _, ht, hv⟩ := Machine.Run.each (M := machine tok own) (Q := (· ≠ own))
    (P := fun _ user => (env user).authorized user = true) (C := Leaves env)
    (fun hs ha => by
      obtain ⟨t, w', hr, hs', ht, hv⟩ := exit_run hx hh hs ha
      exact ⟨t, w', hr, hs', ht, fun _ _ ha => ha, hv⟩) hsolid users hd ha
  exact ⟨t', w', hrun, ht, hv⟩

end

theorem everyone_exits_utilized : ∃ t' w',
    (machine plainToken ⟨0⟩).Run ((machine plainToken ⟨0⟩).replay sampleStart utilized).2 t' w' ∧
      account plainToken w' ⟨2⟩ = ⟨20, 20, 0, 90⟩ := by
  obtain ⟨t', w', hr, _, hv⟩ := everyone_exits plainToken_exact plainToken_honours (by decide)
    ((machine plainToken ⟨0⟩).run_replay sampleStart utilized) (by decide) (by decide) [⟨2⟩, ⟨3⟩]
    (by decide) (fun _ => .signed ⟨0⟩ 0) (by decide)
  exact ⟨t', w', hr, (hv ⟨2⟩ (by decide)).trans (by decide)⟩

end Shelterflex.MvpStakingPool
