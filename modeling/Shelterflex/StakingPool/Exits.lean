import Shelterflex.StakingPool.Unstaking

/-! Once their deposits are unlocked, all users can leave the pool, in any order. -/

namespace Shelterflex.StakingPool
open Lib
set_option autoImplicit true

/-- What a user has in the pool, and the tokens that the user holds. -/
@[ext]
structure Holding where
  staked : Int
  tokens : Int
deriving DecidableEq

def holding (tok : Token T) (w : World T) (user : Address) : Holding :=
  ⟨getStakedBalance w.pool user, tok.balance w.token user⟩

/-- All of the stake is paid out. -/
def Holding.exit (x : Holding) : Holding := ⟨0, x.tokens + x.staked⟩

/-- The state of a pool whose users can leave. -/
structure Solid (tok : Token T) (own : Address) (w : World T) : Prop where
  books : Books w.pool
  ready : Ready w.pool
  covered : getTotalStaked w.pool ≤ tok.balance w.token own
  running : w.pool.paused.getD false = false

/-- A call that unstakes for the user is authorized, and comes when all deposits of the user are
unlocked. -/
structure Free (env : Env own) (user : Address) (s : State) : Prop where
  permitted : ∃ spender, requireUserOrOperator env user user s = .ok spender
  current : env.timestamp < 2 ^ 64
  unlocked : ∀ i < getDepositCount s user, ∀ d ∈ getDeposit s user i,
    d.Unlocked (getLockPeriod s) env.timestamp

section
variable {tok : Token T} {own : Address} {env : Env own} {w w' : World T}

theorem Free.timely (h : Free env user s) : Timely (getLockPeriod s) s user := by
  intro i hi d hd
  have hc := h.current
  rcases h.unlocked i hi d hd with hz | hle
  · exact .inl hz
  · exact .inr (by omega)

theorem Free.unlockedSum (h : Free env user s) :
    unlockedSum (getLockPeriod s) env.timestamp s user = depositSum s user := by
  rw [StakingPool.unlockedSum, depositSum]
  congr 1
  refine List.map_congr_left fun i hi => ?_
  unfold amountAt
  cases hd : getDeposit s user i with
  | none => rw [unlockedAt, hd]; rfl
  | some d => exact unlockedAt_of_some hd (h.unlocked i (List.mem_range.mp hi) d hd)

theorem unstake_keeps (h : unstake tok env user amount w = .ok w') (hp : Positive w.pool) :
    w'.pool.paused = w.pool.paused ∧
      ∀ {env' : Env own} {u}, u ≠ user → Free env' u w.pool → Free env' u w'.pool := by
  obtain ⟨ha, _, hle, ⟨m, s⟩, hfold, hw⟩ := unstake_writes h
  obtain ⟨_, ⟨D, hD⟩, _, hother, _⟩ := consumeDeposit_fold hfold List.nodup_range hp ha.le
  obtain rfl : s = { w.pool with deposit := D } := hD
  refine ⟨by rw [hw], fun {env' u} hne hf => ?_⟩
  have hdep (i) : getDeposit w'.pool u i = getDeposit w.pool u i := by
    rw [hw]
    exact hother u i (.inl hne)
  have hcount : getDepositCount w'.pool u = getDepositCount w.pool u := by rw [hw]; rfl
  have hlock : getLockPeriod w'.pool = getLockPeriod w.pool := by rw [hw]; rfl
  refine ⟨?_, hf.current, fun i hi d hd => ?_⟩
  · rw [hw]
    exact hf.permitted
  · rw [hlock]
    exact hf.unlocked i (hcount ▸ hi) d (hdep i ▸ hd)

/-- A user whose deposits are all unlocked can withdraw them all. -/
theorem unstake_returns (hx : tok.Exact) (hh : tok.Honours) (h : Solid tok own w)
    (hf : Free env user w.pool) (hpos : 0 < getStakedBalance w.pool user) :
    ∃ w', unstake tok env user (getStakedBalance w.pool user) w = .ok w' ∧ Solid tok own w' ∧
      ∀ u, u ≠ own → holding tok w' u =
        if u = user then (holding tok w u).exit else holding tok w u := by
  obtain ⟨spender, ha⟩ := hf.permitted
  have hle := (h.books.staked_bounds user).2
  obtain ⟨t, htok⟩ : ∃ t, (tok.call env w.token own user (getStakedBalance w.pool user) :
      Outcome ContractError T) = .ok t := hh.pay env user hpos.le (hle.trans h.covered)
  obtain ⟨w', hu⟩ := unstake_enabled h.books h.ready h.running ha hpos hf.timely
    (hf.unlockedSum ▸ (h.books.staked user).le) htok
  obtain ⟨_, ⟨_, ht⟩, hs⟩ := unstake_ok h.books hu
  have hbal := hx.outflow_le ht hpos.le
  have hcov := h.covered
  refine ⟨w', hu, ⟨hs.books h.books, unstake_ready h.books h.ready hu, ?_, ?_⟩, fun u hne => ?_⟩
  · rw [hs.total]
    omega
  · rw [(unstake_keeps hu h.books.positive).1]
    exact h.running
  · have htokens : tok.balance w'.token u =
        tok.balance w.token u + if u = user then getStakedBalance w.pool user else 0 := by
      rw [hx ht u, if_neg hne, sub_zero]
    have hstaked := hs.staked u
    by_cases he : u = user
    · subst he
      rw [if_pos rfl] at hstaked htokens ⊢
      exact Holding.ext (hstaked.trans (add_neg_cancel _)) htokens
    · rw [if_neg he, add_zero] at hstaked htokens
      rw [if_neg he]
      exact Holding.ext hstaked htokens

/-- The call by which a user leaves the pool. -/
def Leaves (env : Address → Env own) (user : Address)
    (e : Event (World T) (Action own T) Output) : Prop :=
  ∃ amount, e.input = .call (env user) (.unstake user amount)

theorem exit_run {env : Address → Env own} (hx : tok.Exact) (hh : tok.Honours)
    (h : Solid tok own w) (hf : Free (env user) user w.pool) :
    ∃ t w', (machine tok own).Run w t w' ∧ Solid tok own w' ∧ (∀ e ∈ t, Leaves env user e) ∧
      (∀ u, u ≠ user → Free (env u) u w.pool → Free (env u) u w'.pool) ∧
      ∀ u, u ≠ own → holding tok w' u =
        if u = user then (holding tok w u).exit else holding tok w u := by
  rcases (h.books.staked_bounds user).1.lt_or_eq with hpos | hz
  · obtain ⟨w', hu, hs, hv⟩ := unstake_returns hx hh h hf hpos
    have hstep : (machine tok own).step w (.call (env user) (.unstake user
        (getStakedBalance w.pool user))) = some (w', .unit) := commit_some.mpr ⟨w', hu, rfl⟩
    exact ⟨_, w', .commit .start hstep, hs, List.forall_mem_singleton.mpr ⟨_, rfl⟩,
      fun u hne => (unstake_keeps hu h.books.positive).2 hne, hv⟩
  · refine ⟨[], w, .start, h, List.forall_mem_nil _, fun _ _ hf => hf, fun u _ => ?_⟩
    split
    · rename_i he
      subst he
      have hz : (holding tok w u).staked = 0 := hz.symm
      exact Holding.ext hz (by rw [Holding.exit, hz, add_zero])
    · rfl

end

end Shelterflex.StakingPool
