import Shelterflex.StakingPool.Deposits

namespace Shelterflex.StakingPool
open Lib
set_option autoImplicit true

/-- Every record of what a user has staked moves by `x`, and nobody else's moves. -/
structure Shifts (user : Address) (x : Int) (s s' : State) : Prop where
  staked : ∀ u, getStakedBalance s' u = getStakedBalance s u + if u = user then x else 0
  deposits : ∀ u, depositSum s' u = depositSum s u + if u = user then x else 0
  total : getTotalStaked s' = getTotalStaked s + x
  positive : Positive s'

/-- What holds of the pool's records in every reachable state. -/
structure Books (s : State) : Prop where
  staked : ∀ user, getStakedBalance s user = depositSum s user
  positive : Positive s
  total : getTotalStaked s = ∑ᶠ user, getStakedBalance s user

theorem Shifts.books (h : Shifts user x s s') (hb : Books s) : Books s' where
  staked u := by rw [h.staked, h.deposits, hb.staked]
  positive := h.positive
  total := by
    have hf : (getStakedBalance s).support.Finite :=
      s.stakedBalance.support_finite fun u hu => by rw [getStakedBalance, Store.getD, hu]; rfl
    have hne (u) (hu : u ≠ user) : getStakedBalance s' u = getStakedBalance s u := by
      rw [h.staked, if_neg hu, add_zero]
    rw [finsum_change hf user hne, h.staked, if_pos rfl, h.total, hb.total]
    ring

/-- A sum over the deposits a user has been counted for. -/
def sumDeposits (f : Option Deposit → Int) (s : State) (user : Address) : Int :=
  ((List.range (getDepositCount s user)).map fun i => f (getDeposit s user i)).sum

theorem sumDeposits_congr (hd : s'.deposit = s.deposit) (hc : s'.depositCount = s.depositCount)
    (f : Option Deposit → Int) (user : Address) : sumDeposits f s' user = sumDeposits f s user := by
  simp only [sumDeposits, getDepositCount, getDeposit, hd, hc]

theorem depositSum_congr (hd : s'.deposit = s.deposit) (hc : s'.depositCount = s.depositCount) :
    depositSum s' = depositSum s :=
  funext (sumDeposits_congr hd hc fun d => (d.map Deposit.amount).getD 0)

theorem Shifts.keep (hb : Books s) (hs : s'.stakedBalance = s.stakedBalance)
    (ht : s'.totalStaked = s.totalStaked) (hd : s'.deposit = s.deposit)
    (hc : s'.depositCount = s.depositCount) : Shifts user 0 s s' where
  staked u := by simp only [getStakedBalance, hs, ite_self, add_zero]
  deposits u := by rw [depositSum_congr hd hc, ite_self, add_zero]
  total := by simp only [getTotalStaked, ht, add_zero]
  positive user i d h := hb.positive user i d (by rw [getDeposit, ← hd]; exact h)

/-- The records of a new deposit. -/
def addDeposit (user : Address) (amount : Int) (timestamp : Nat) (s : State) : State :=
  { s with
    stakedBalance := s.stakedBalance.set user (getStakedBalance s user + amount)
    totalStaked := some (getTotalStaked s + amount)
    deposit := s.deposit.set (user, getDepositCount s user) ⟨amount, timestamp⟩
    depositCount := s.depositCount.set user (getDepositCount s user + 1) }

theorem getD_set_add (m : Store Address Int) (user u : Address) (x : Int) :
    (m.set user (m.getD user 0 + x)).getD u 0 = m.getD u 0 + if u = user then x else 0 := by
  rw [Store.getD_set]
  split
  · subst u
    rfl
  · exact (add_zero _).symm

theorem addDeposit_sum (f : Option Deposit → Int) (s : State) (user u : Address) :
    sumDeposits f (addDeposit user amount timestamp s) u = sumDeposits f s u +
      if u = user then f (some ⟨amount, timestamp⟩) else 0 := by
  have hsame (i) (h : (u, i) ≠ (user, getDepositCount s user)) :
      getDeposit (addDeposit user amount timestamp s) u i = getDeposit s u i := by
    rw [getDeposit, getDeposit, addDeposit, Store.get_set_of_ne _ _ h]
  by_cases he : u = user
  · subst u
    have hlt (i) (hi : i ∈ List.range (getDepositCount s user)) :
        f (getDeposit (addDeposit user amount timestamp s) user i) = f (getDeposit s user i) := by
      rw [hsame]
      intro h
      exact (List.mem_range.mp hi).ne (Prod.mk.inj h).2
    have hnew : getDeposit (addDeposit user amount timestamp s) user (getDepositCount s user) =
        some ⟨amount, timestamp⟩ := Store.get_set_self _ _ _
    have hcount : getDepositCount (addDeposit user amount timestamp s) user =
        getDepositCount s user + 1 := Store.getD_set_self _ _ _ _
    rw [sumDeposits, hcount, List.range_succ, List.map_append, List.sum_append,
      List.map_congr_left hlt, if_pos rfl, List.map_singleton, List.sum_singleton, hnew]
    rfl
  · have hcount : getDepositCount (addDeposit user amount timestamp s) u =
        getDepositCount s u := Store.getD_set_of_ne _ _ _ he
    have hall (i) (_ : i ∈ List.range (getDepositCount s u)) :
        f (getDeposit (addDeposit user amount timestamp s) u i) = f (getDeposit s u i) := by
      rw [hsame]
      intro h
      exact he (Prod.mk.inj h).1
    rw [sumDeposits, hcount, List.map_congr_left hall, if_neg he, add_zero]
    rfl

theorem addDeposit_shifts (hp : Positive s) (ha : 0 < amount) :
    Shifts user amount s (addDeposit user amount timestamp s) where
  staked u := getD_set_add s.stakedBalance user u amount
  deposits u := addDeposit_sum (fun d => (d.map Deposit.amount).getD 0) s user u
  total := rfl
  positive u i d h := by
    simp only [addDeposit, getDeposit, Store.get_set] at h
    split at h
    · cases h
      exact ha
    · exact hp u i d h

/-- What `unstake` takes from the deposits of a user. -/
structure Withdraws (user : Address) (amount : Int) (s s' : State) : Prop where
  staked : s'.stakedBalance = s.stakedBalance
  total : s'.totalStaked = s.totalStaked
  deposits : ∀ u, depositSum s' u = depositSum s u + if u = user then -amount else 0
  positive : Positive s'

theorem consumeDeposit_withdraws {r r' : Int × State}
    (h : (List.range (getDepositCount r.2 user)).foldlM
      (consumeDeposit lockPeriod currentTime user) r = .ok r')
    (hp : Positive r.2) (hr : 0 ≤ r.1)
    (hle : r.1 ≤ ((List.range (getDepositCount r.2 user)).map
      (unlockedAt lockPeriod currentTime r.2 user)).sum) :
    Withdraws user r.1 r.2 r'.2 := by
  obtain ⟨hm, ⟨D, hD⟩, hsum, hother, hpos⟩ := consumeDeposit_fold h List.nodup_range hp hr
  have hz : r'.1 = 0 := by rw [hm, min_eq_left hle, sub_self]
  have hcount (u) : getDepositCount r'.2 u = getDepositCount r.2 u := by rw [hD]; rfl
  refine ⟨by rw [hD], by rw [hD], fun u => ?_, hpos⟩
  by_cases he : u = user
  · subst u
    rw [if_pos rfl, depositSum, hcount, hsum, hz, sub_zero]
    rfl
  · have ha : amountAt r'.2 u = amountAt r.2 u := by
      funext i
      rw [amountAt, amountAt, hother u i (.inl he)]
    rw [if_neg he, depositSum, hcount, ha, add_zero]
    rfl

theorem Withdraws.shifts (h : Withdraws user amount s s₁)
    (hs : s'.stakedBalance = s₁.stakedBalance.set user (getStakedBalance s user - amount))
    (ht : s'.totalStaked = some (getTotalStaked s₁ - amount)) (hd : s'.deposit = s₁.deposit)
    (hc : s'.depositCount = s₁.depositCount) : Shifts user (-amount) s s' where
  staked u := by
    rw [getStakedBalance, hs, h.staked, sub_eq_add_neg]
    exact getD_set_add s.stakedBalance user u (-amount)
  deposits u := by rw [depositSum_congr hd hc, h.deposits]
  total := by
    rw [getTotalStaked, ht, getTotalStaked, h.total]
    rfl
  positive u i d hg := h.positive u i d (by rw [getDeposit, ← hd]; exact hg)

section
variable {own : Address} {tok : Token T} {env : Env own} {w w' : World T}

theorem stake_writes (h : stake tok env source amount w = .ok w') :
    0 < amount ∧ (∃ auth, tok.transfer w.token auth source own amount = some w'.token) ∧
      w'.pool = addDeposit source amount env.timestamp { w.pool with reentrancy := exit } := by
  simp only [stake, bind_ok, enterNonreentrant, enter_ok, transfer, Token.call_ok,
    requireValidAmount, require_ok, i128Add_ok, u32Add_ok, pure_ok] at h
  obtain ⟨_, _, _, _, _, ha, _, ⟨_, ⟨_, rfl⟩, rfl⟩, t, ⟨_, _, ht⟩, _, ⟨_, rfl⟩, _, ⟨_, rfl⟩,
    _, ⟨_, rfl⟩, rfl⟩ := h
  exact ⟨ha, ⟨_, ht⟩, rfl⟩

theorem stake_ok (hb : Books w.pool) (h : stake tok env source amount w = .ok w') :
    (∃ auth, tok.transfer w.token auth source own amount = some w'.token) ∧
      Shifts source amount w.pool w'.pool := by
  obtain ⟨ha, ht, hw⟩ := stake_writes h
  have hs : Shifts source amount { w.pool with reentrancy := exit } w'.pool :=
    hw ▸ addDeposit_shifts hb.positive ha
  exact ⟨ht, hs.staked, hs.deposits, hs.total, hs.positive⟩

theorem unstake_writes (h : unstake tok env target amount w = .ok w') :
    0 < amount ∧ (∃ auth, tok.transfer w.token auth own target amount = some w'.token) ∧
      amount ≤ ((List.range (getDepositCount w.pool target)).map
        (unlockedAt (getLockPeriod w.pool) env.timestamp w.pool target)).sum ∧
      ∃ r, (List.range (getDepositCount w.pool target)).foldlM
          (consumeDeposit (getLockPeriod w.pool) env.timestamp target) (amount, w.pool) = .ok r ∧
        w'.pool = { r.2 with
          stakedBalance := r.2.stakedBalance.set target (getStakedBalance w.pool target - amount)
          totalStaked := some (getTotalStaked r.2 - amount)
          reentrancy := exit } := by
  simp only [unstake, bind_ok, enterNonreentrant, enter_ok, transfer, Token.call_ok,
    requireValidAmount, require_ok, i128Sub_ok, pure_ok] at h
  obtain ⟨_, _, _, _, _, ha, _, _, n, hn, _, hle, r, hr, _, ⟨_, rfl⟩, _, ⟨_, rfl⟩, _,
    ⟨_, ⟨_, rfl⟩, rfl⟩, t, ⟨_, _, ht⟩, rfl⟩ := h
  rw [addUnlocked_fold _ hn, zero_add] at hle
  exact ⟨ha, ⟨_, ht⟩, hle, r, hr, rfl⟩

theorem unstake_ok (hb : Books w.pool) (h : unstake tok env target amount w = .ok w') :
    0 < amount ∧ (∃ auth, tok.transfer w.token auth own target amount = some w'.token) ∧
      Shifts target (-amount) w.pool w'.pool := by
  obtain ⟨ha, ht, hle, r, hr, hw⟩ := unstake_writes h
  have hd := consumeDeposit_withdraws hr hb.positive ha.le hle
  refine ⟨ha, ht, hd.shifts ?_ ?_ ?_ ?_⟩
  all_goals rw [hw]

/-- A stake in the name of the pool itself, whose transfer moves nothing. -/
def stakesOwn : Action own T → Bool
  | .call _ (.stake source _) => source = own
  | _ => false

/-- The calls that move what a user has staked. -/
def Call.moves : Call → Bool
  | .stake _ _ => true
  | .unstake _ _ => true
  | _ => false

/-- The records of what was staked stay as they are. -/
structure Keeps (w w' : World T) : Prop where
  stakedBalance : w'.pool.stakedBalance = w.pool.stakedBalance
  totalStaked : w'.pool.totalStaked = w.pool.totalStaked
  deposit : w'.pool.deposit = w.pool.deposit
  depositCount : w'.pool.depositCount = w.pool.depositCount
  token : w'.token = w.token

theorem invoke_frame (h : invoke tok env w c = some (w', o)) (hc : c.moves = false) :
    ∃ gov operator paused lockPeriod,
      w' = ⟨{ w.pool with gov, operator, paused, lockPeriod }, w.token⟩ ∧
        ((∀ admin newOperator, c ≠ .setOperator admin newOperator) →
          operator = w.pool.operator) := by
  cases c with
  | stake _ _ | unstake _ _ => cases hc
  | setOperator admin newOperator =>
    obtain ⟨_, hs, he⟩ := commit_some.mp h
    cases he
    simp only [setOperator, bind_ok, pure_ok] at hs
    obtain ⟨_, _, _, _, _, _, rfl⟩ := hs
    exact ⟨_, _, _, _, rfl, fun hne => absurd rfl (hne admin newOperator)⟩
  | setAdmin _ _ | pause _ | unpause _ =>
    obtain ⟨_, hs, he⟩ := commit_some.mp h
    cases he
    simp only [setAdmin, pause, unpause, bind_ok, pure_ok] at hs
    obtain ⟨_, _, _, _, rfl⟩ := hs
    exact ⟨_, _, _, _, rfl, fun _ => rfl⟩
  | setLockPeriod _ _ =>
    obtain ⟨_, hs, he⟩ := commit_some.mp h
    cases he
    simp only [setLockPeriod, bind_ok, pure_ok] at hs
    obtain ⟨_, _, _, _, _, _, rfl⟩ := hs
    exact ⟨_, _, _, _, rfl, fun _ => rfl⟩
  | setGuardian _ _ | setUpgradeDelay _ _ | cancelUpgrade _ =>
    obtain ⟨_, hs, he⟩ := commit_some.mp h
    cases he
    simp only [setGuardian, setUpgradeDelay, cancelUpgrade, bind_ok, pure_ok] at hs
    obtain ⟨_, _, rfl⟩ := hs
    exact ⟨_, _, _, _, rfl, fun _ => rfl⟩
  | proposeUpgrade _ _ _ =>
    obtain ⟨_, hs, he⟩ := commit_some.mp h
    cases he
    simp only [proposeUpgrade, bind_ok, pure_ok] at hs
    obtain ⟨_, _, _, _, rfl⟩ := hs
    exact ⟨_, _, _, _, rfl, fun _ => rfl⟩
  | executeUpgrade _ _ =>
    obtain ⟨_, hs, he⟩ := commit_some.mp h
    cases he
    simp only [executeUpgrade, bind_ok, pure_ok] at hs
    obtain ⟨_, _, rfl⟩ := hs
    exact ⟨_, _, _, _, rfl, fun _ => rfl⟩
  | emergencyUpgrade _ _ _ =>
    obtain ⟨_, hs, he⟩ := commit_some.mp h
    cases he
    simp only [emergencyUpgrade, bind_ok, pure_ok] at hs
    obtain ⟨_, _, _, _, rfl⟩ := hs
    exact ⟨_, _, _, _, rfl, fun _ => rfl⟩

theorem invoke_keeps (h : invoke tok env w c = some (w', o)) (hc : c.moves = false) :
    Keeps w w' := by
  obtain ⟨_, _, _, _, rfl, _⟩ := invoke_frame h hc
  exact ⟨rfl, rfl, rfl, rfl, rfl⟩

theorem Keeps.shifts (h : Keeps w w') (hb : Books w.pool) (user : Address) :
    Shifts user 0 w.pool w'.pool :=
  .keep hb h.stakedBalance h.totalStaked h.deposit h.depositCount

/-- Every step moves the records of one user, and the pool's token balance by at least as much. -/
theorem act_shifts {a : Action own T} (hb : Books w.pool) (h : act tok w a = some (w', o)) :
    ∃ user x, Shifts user x w.pool w'.pool ∧
      (tok.Exact → stakesOwn a = false →
        tok.balance w.token own + x ≤ tok.balance w'.token own) := by
  cases a with
  | traffic t =>
    simp only [act, Option.ite_none_right_eq_some, Option.some.injEq, Prod.mk.injEq] at h
    obtain ⟨hle, rfl, _⟩ := h
    exact ⟨own, 0, .keep hb rfl rfl rfl rfl, fun _ _ => (add_zero _).trans_le hle⟩
  | call env c =>
    change invoke tok env w c = some (w', o) at h
    cases c with
    | stake source amount =>
      obtain ⟨_, hs, he⟩ := commit_some.mp h
      cases he
      obtain ⟨⟨_, ht⟩, hm⟩ := stake_ok hb hs
      exact ⟨source, amount, hm, fun hx hC => (hx.inflow ht (of_decide_eq_false hC)).ge⟩
    | unstake target amount =>
      obtain ⟨_, hs, he⟩ := commit_some.mp h
      cases he
      obtain ⟨ha, ⟨_, ht⟩, hm⟩ := unstake_ok hb hs
      exact ⟨target, -amount, hm, fun hx _ => hx.outflow_le ht ha.le⟩
    | _ =>
      have hk := invoke_keeps h rfl
      exact ⟨own, 0, hk.shifts hb own, fun _ _ => by rw [hk.token, add_zero]⟩

theorem initialized_books (admin token : Address) : Books (initialized admin token) where
  staked _ := rfl
  positive _ _ _ h := by cases h
  total := finsum_zero.symm

theorem run_books
    (h : (machine tok own).Run ⟨initialized admin token, t₀⟩ t w) : Books w.pool := by
  refine h.invariant (P := fun _ w => Books w.pool) (initialized_books admin token) ?_
  intro t w a w' o hb he
  obtain ⟨user, x, hs, _⟩ := act_shifts hb he
  exact hs.books hb

/-- While nobody stakes in the name of the pool itself, its records agree and its tokens cover
them. -/
theorem records_agree (hx : tok.Exact) (h₀ : 0 ≤ tok.balance t₀ own)
    (h : (machine tok own).Run ⟨initialized admin token, t₀⟩ t w)
    (hC : ∀ e ∈ t, stakesOwn e.input = false) :
    (∀ user, getStakedBalance w.pool user = depositSum w.pool user) ∧
      (∀ user i d, getDeposit w.pool user i = some d → 0 < d.amount) ∧
      getTotalStaked w.pool = ∑ᶠ user, getStakedBalance w.pool user ∧
      getTotalStaked w.pool ≤ tok.balance w.token own := by
  have hb := run_books h
  refine ⟨hb.staked, hb.positive, hb.total, ?_⟩
  have hinv : Books w.pool ∧ getTotalStaked w.pool ≤ tok.balance w.token own := by
    refine h.invariant_of (P := fun _ w => Books w.pool ∧
      getTotalStaked w.pool ≤ tok.balance w.token own) hC ⟨initialized_books _ _, ?_⟩ ?_
    · exact h₀
    · rintro t w a w' o ⟨hb, hle⟩ he hc
      obtain ⟨user, x, hs, hg⟩ := act_shifts hb he
      have hg := hg hx hc
      refine ⟨hs.books hb, ?_⟩
      rw [hs.total]
      omega
  exact hinv.2

end

def sampleStart : World (Address → Int) :=
  ⟨initialized ⟨1⟩ ⟨9⟩, fun a => if a = ⟨0⟩ then 0 else 500⟩

/-- Two deposits under a lock, of which the first is withdrawn in two parts. -/
def lockedDeposits : List (Action ⟨0⟩ (Address → Int)) :=
  [.call (.signed ⟨0⟩ 0) (.setLockPeriod ⟨1⟩ 100), .call (.signed ⟨0⟩ 0) (.stake ⟨2⟩ 60),
    .call (.signed ⟨0⟩ 50) (.stake ⟨2⟩ 40), .call (.signed ⟨0⟩ 50) (.stake ⟨3⟩ 70),
    .call (.signed ⟨0⟩ 100) (.unstake ⟨2⟩ 25), .call (.signed ⟨0⟩ 120) (.unstake ⟨2⟩ 50),
    .call (.signed ⟨0⟩ 120) (.unstake ⟨2⟩ 35)]

theorem records_agree_locked :
    getStakedBalance ((machine plainToken ⟨0⟩).replay sampleStart lockedDeposits).2.pool ⟨2⟩ =
      depositSum ((machine plainToken ⟨0⟩).replay sampleStart lockedDeposits).2.pool ⟨2⟩ :=
  (records_agree plainToken_exact (by decide)
    ((machine plainToken ⟨0⟩).run_replay sampleStart lockedDeposits) (by decide)).1 ⟨2⟩

/-- The operator stakes the pool's own tokens in the name of the pool. -/
def selfStake : List (Action ⟨0⟩ (Address → Int)) :=
  [.call (.signed ⟨0⟩ 0) (.stake ⟨2⟩ 100), .call (.signed ⟨0⟩ 0) (.setOperator ⟨1⟩ (some ⟨5⟩)),
    .call (.signed ⟨0⟩ 0) (.stake ⟨0⟩ 50)]

theorem records_exceed_balance :
    ¬ ∀ t w, (machine plainToken ⟨0⟩).Run sampleStart t w →
      getTotalStaked w.pool ≤ plainToken.balance w.token ⟨0⟩ := by
  intro hall
  have hr := (machine plainToken ⟨0⟩).run_replay sampleStart selfStake
  exact absurd (hall _ _ hr) (by decide)

end Shelterflex.StakingPool
